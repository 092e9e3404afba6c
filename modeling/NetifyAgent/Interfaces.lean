import NetifyAgent.ApplicationTables
import Mathlib.Data.List.SplitOn

/-! The interfaces of the configuration. A reload clears those that the files set
before and takes up the sections of the configuration file, and then those of the
files of a directory; it stops where a file cannot be read or a section has bad
capture settings. -/
namespace NetifyAgent
open Lines

/-- `set<string>`. -/
abbrev StringSet := OrderedMap (List Char) Unit

namespace StringSet

def elements (set : StringSet) : List (List Char) := set.entries.map Prod.fst

end StringSet

/-! ## Settings -/

/-- `nd_interface_role`. -/
inductive InterfaceRole where
  | none
  | lan
  | wan
  deriving DecidableEq, Repr

/-- The roles in their order. -/
def InterfaceRole.all : List InterfaceRole := [.none, .lan, .wan]

namespace CaptureType

/-- `nd_capture_type`, a flag for the command line and the types. -/
def none : Nat := 0
def cmdline : Nat := 1
def pcap : Nat := 2
def pcapOffline : Nat := 4
def tpv3 : Nat := 8
def nfq : Nat := 16

/-- `ndCT_TYPE`. -/
def type (t : Nat) : Nat := t &&& 0xfffffffe

end CaptureType

/-- `nd_tpv3_fanout_mode`. -/
inductive FanoutMode where
  | disabled
  | hash
  | loadBalanced
  | cpu
  | rollover
  | random
  deriving DecidableEq, Repr

/-- `nd_config_pcap`. -/
structure ConfigPcap where
  captureFilename : List Char := []
  deriving DecidableEq, Repr

/-- `nd_config_tpv3`. -/
structure ConfigTpv3 where
  fanoutMode : FanoutMode := .disabled
  fanoutFlags : Nat := 0
  fanoutInstances : Nat := 0
  rbBlockSize : Nat := 2 ^ 22
  rbFrameSize : Nat := 2 ^ 11
  rbBlocks : Nat := 64
  deriving DecidableEq, Repr

/-- `nd_config_nfq`. -/
structure ConfigNfq where
  queueId : Nat := 0
  instances : Nat := 0
  deriving DecidableEq, Repr

/-- What the `void *` of an interface points to. -/
inductive InterfaceConfig where
  | null
  | pcap (config : ConfigPcap)
  | tpv3 (config : ConfigTpv3)
  | nfq (config : ConfigNfq)
  deriving DecidableEq, Repr

/-- `INIReader`: what it has read of a file. -/
structure IniReader where
  parseError : Int := 0
  /-- `GetSections`, in their order. -/
  sections : List (List Char) := []
  /-- The values of the names in a section. -/
  values : List ((List Char × List Char) × List Char) := []
  /-- The number that a value starts with. -/
  number : List Char → List Char → Option Int := fun _ _ => none

namespace IniReader

/-- `Get`. -/
def get (r : IniReader) (s name default : List Char) : List Char :=
  ((r.values.find? fun e => e.1 = (s, name)).map Prod.snd).getD default

/-- `(unsigned)GetInteger`. -/
def getUnsigned (r : IniReader) (s name : List Char) (default : Nat) : Nat :=
  (((r.number s name).getD default) % 2 ^ 32).toNat

end IniReader

/-- `Interfaces`: the type and the settings of an interface. -/
abbrev InterfaceMap := OrderedMap (List Char) (Nat × InterfaceConfig)

/-- `ndGlobalConfig`, as far as the interfaces are concerned. -/
structure GlobalConfig where
  /-- `ndGF_IGNORE_IFACE_CONFIGS`. -/
  ignoreIfaceConfigs : Bool := false
  captureType : Nat := CaptureType.pcap
  tpv3Defaults : ConfigTpv3 := {}
  interfaces : InterfaceRole → InterfaceMap := fun _ => ∅
  interfaceAddrs : OrderedMap (List Char) StringSet := ∅
  interfacePeers : OrderedMap (List Char) (List Char) := ∅
  interfaceFilters : OrderedMap (List Char) (List Char) := ∅

/-- `strcasecmp` finds no difference. -/
def sameCase (a b : List Char) : Bool := a.map Char.toLower == b.map Char.toLower

namespace GlobalConfig

/-- The addresses listed for an interface. -/
def listed (gc : GlobalConfig) (iface : List Char) : List (List Char) :=
  match gc.interfaceAddrs.get iface with
  | none => []
  | some set => set.elements

/-- `AddInterface`. -/
def addInterface (gc : GlobalConfig) (iface : List Char) (role : InterfaceRole) (type : Nat)
    (config : InterfaceConfig) : GlobalConfig × Bool :=
  if InterfaceRole.all.any fun r => ((gc.interfaces r).get iface).isSome then (gc, true)
  else if CaptureType.type type = CaptureType.none ∧
      CaptureType.type gc.captureType = CaptureType.none then (gc, false)
  else
    let type := if CaptureType.type type = CaptureType.none then gc.captureType else type
    let config :=
      if config ≠ .null then config
      else if CaptureType.type type = CaptureType.pcap ∨
          CaptureType.type type = CaptureType.pcapOffline then .pcap {}
      else if CaptureType.type type = CaptureType.tpv3 then .tpv3 gc.tpv3Defaults
      else if CaptureType.type type = CaptureType.nfq then .nfq {}
      else .null
    let interfaces := (gc.interfaces role).set iface (type, config)
    ({ gc with interfaces := Function.update gc.interfaces role interfaces }, true)

/-- `AddInterfaceAddress`. -/
def addInterfaceAddress (gc : GlobalConfig) (iface addr : List Char) : GlobalConfig :=
  let set := (gc.interfaceAddrs.get iface).getD ∅
  { gc with interfaceAddrs := gc.interfaceAddrs.set iface (set.set addr ()) }

/-- `AddInterfacePeer`. -/
def addInterfacePeer (gc : GlobalConfig) (iface peer : List Char) : GlobalConfig :=
  { gc with interfacePeers := gc.interfacePeers.emplace iface peer }

/-- `AddInterfaceFilter`. -/
def addInterfaceFilter (gc : GlobalConfig) (iface filter : List Char) : GlobalConfig :=
  { gc with interfaceFilters := gc.interfaceFilters.emplace iface filter }

/-- `ClearInterfaces`. -/
def clearInterfaces (gc : GlobalConfig) (cmdlineEntries : Bool) : GlobalConfig :=
  let clearList := InterfaceRole.all.flatMap fun role =>
    ((gc.interfaces role).entries.filter fun i =>
      i.2.1 &&& CaptureType.cmdline = 0 ∨ cmdlineEntries).map Prod.fst
  clearList.foldl (fun gc iface => { gc with
    interfaces := fun role => (gc.interfaces role).erase iface
    interfacePeers := gc.interfacePeers.erase iface
    interfaceAddrs := gc.interfaceAddrs.erase iface }) gc

/-! ## Sections -/

/-- `LoadCaptureType`, with every capture type built in. `none` is thrown. -/
def loadCaptureType (r : IniReader) (s : List Char) : Option Nat :=
  let captureType := r.get s "capture_type".toList "auto".toList
  if captureType = "auto".toList ∨ captureType = "pcap".toList then some CaptureType.pcap
  else if captureType = "tpv3".toList then some CaptureType.tpv3
  else if captureType = "nfqueue".toList then some CaptureType.nfq
  else none

/-- `fanout_mode`. -/
def fanoutMode (text : List Char) : FanoutMode :=
  if text = "hash".toList then .hash
  else if text = "lb".toList ∨ text = "load_balanced".toList then .loadBalanced
  else if text = "cpu".toList then .cpu
  else if text = "rollover".toList then .rollover
  else if text = "random".toList then .random
  else .disabled

/-- `fanout_flags`, on top of those set. -/
def fanoutFlags (flags : Nat) (text : List Char) : Option Nat :=
  if text = "none".toList then some flags
  else (text.splitOn ',').foldlM (fun flags flag =>
    let flag := trim (· == ' ') flag
    if flag = "defrag".toList then some (flags ||| 1)
    else if flag = "rollover".toList then some (flags ||| 2)
    else none) flags

/-- `LoadCaptureSettings` for `ndCT_PCAP`: the type and the settings. -/
def loadPcapSettings (fileExists : List Char → Bool) (r : IniReader) (s : List Char) :
    Option (Nat × InterfaceConfig) :=
  let captureFilename := r.get s "filename".toList []
  if captureFilename = [] then some (CaptureType.pcap, .pcap {})
  else if ¬ fileExists captureFilename then none
  else some (CaptureType.pcapOffline, .pcap { captureFilename })

/-- `LoadCaptureSettings` for `ndCT_TPV3`. -/
def loadTpv3Settings (gc : GlobalConfig) (r : IniReader) (s : List Char) : Option InterfaceConfig :=
  (fanoutFlags gc.tpv3Defaults.fanoutFlags (r.get s "fanout_flags".toList "none".toList)).map
    fun fanoutFlags =>
      let mode := fanoutMode (r.get s "fanout_mode".toList "none".toList)
      let instances := r.getUnsigned s "fanout_instances".toList 0
      let few := mode ≠ .disabled ∧ instances < 2
      .tpv3 {
        fanoutMode := if few then .disabled else mode
        fanoutFlags
        fanoutInstances := if few then 0 else instances
        rbBlockSize := r.getUnsigned s "rb_block_size".toList gc.tpv3Defaults.rbBlockSize
        rbFrameSize := r.getUnsigned s "rb_frame_size".toList gc.tpv3Defaults.rbFrameSize
        rbBlocks := r.getUnsigned s "rb_blocks".toList gc.tpv3Defaults.rbBlocks }

/-- The settings of a queue, whose number is that in the name. -/
def loadNfqSettings (r : IniReader) (s iface : List Char) : Option InterfaceConfig :=
  let digits := iface.dropWhile fun c => ¬ c.isDigit
  if digits = [] ∨ ¬ sameCase (iface.take 3) "nfq".toList then none
  else some (.nfq {
    queueId := min (strtoul digits) (2 ^ 63 - 1) % 2 ^ 32
    instances := r.getUnsigned s "queue_instances".toList 1 })

/-- `role`. -/
def interfaceRole (text : List Char) : InterfaceRole :=
  if sameCase text "LAN".toList ∨ sameCase (text.take 3) "INT".toList then .lan
  else if sameCase text "WAN".toList ∨ sameCase (text.take 3) "EXT".toList then .wan
  else .none

/-- `address[i]`. -/
def addressName (i : Nat) : List Char := "address[".toList ++ Nat.toDigits 10 i ++ [']']

/-- The addresses up to the first that is missing or empty. -/
def addresses (r : IniReader) (s : List Char) : List (List Char) :=
  ((List.range (r.values.length + 1)).map fun i => r.get s (addressName i) []).takeWhile (· ≠ [])

/-- The section of an interface. `none` is thrown, `false` returned. -/
def loadSection (fileExists : List Char → Bool) (r : IniReader) (gc : GlobalConfig)
    (s : List Char) : GlobalConfig × Option Bool :=
  let key := "capture-interface-".toList
  if ¬ sameCase (s.take key.length) key then (gc, some true)
  else
    match cutLast '-' s with
    | none => (gc, some true)
    | some (_, iface) =>
      let role := interfaceRole (r.get s "role".toList "none".toList)
      if role = .none then (gc, some true)
      else if ((gc.interfaces role).get iface).isSome then (gc, some true)
      else
        match loadCaptureType r s with
        | none => (gc, none)
        | some type =>
          let settings :=
            if type = CaptureType.pcap then loadPcapSettings fileExists r s
            else if type = CaptureType.tpv3 then
              (gc.loadTpv3Settings r s).map fun config => (type, config)
            else (loadNfqSettings r s iface).map fun config => (type, config)
          match settings with
          | none => (gc, some false)
          | some (type, config) =>
            let gc := (gc.addInterface iface role type config).1
            let gc := (addresses r s).foldl (fun gc addr => gc.addInterfaceAddress iface addr) gc
            let peer := r.get s "peer".toList []
            let gc := if peer ≠ [] then gc.addInterfacePeer iface peer else gc
            let filter := r.get s "filter".toList []
            (if filter ≠ [] then gc.addInterfaceFilter iface filter else gc, some true)

/-- The loop of `LoadInterfaces(reader)`. -/
def loadSections (fileExists : List Char → Bool) (r : IniReader) :
    List (List Char) → GlobalConfig → GlobalConfig × Option Bool
  | [], gc => (gc, some true)
  | s :: rest, gc =>
    match loadSection fileExists r gc s with
    | (gc, some true) => loadSections fileExists r rest gc
    | stopped => stopped

/-- `LoadInterfaces(reader)`. -/
def loadReader (fileExists : List Char → Bool) (gc : GlobalConfig) (r : IniReader) :
    GlobalConfig × Option Bool :=
  loadSections fileExists r r.sections gc

/-- The files of `path_interfaces`. -/
def loadFiles (fileExists : List Char → Bool) : List IniReader → GlobalConfig →
    GlobalConfig × Option Bool
  | [], gc => (gc, some true)
  | r :: rest, gc =>
    if r.parseError ≠ 0 then (gc, some false)
    else
      match gc.loadReader fileExists r with
      | (gc, some true) => loadFiles fileExists rest gc
      | stopped => stopped

/-- `LoadInterfaces(filename)`, with the files that `nd_scan_dotd` finds. `Open` fails
only without memory, and the errors of the reader it opens are not looked at. -/
def loadInterfaces (fileExists : List Char → Bool) (reader : IniReader) (files : List IniReader)
    (gc : GlobalConfig) : GlobalConfig × Option Bool :=
  if gc.ignoreIfaceConfigs then (gc, some true)
  else
    match (gc.clearInterfaces false).loadReader fileExists reader with
    | (gc, some true) => loadFiles fileExists files gc
    | stopped => stopped

/-- Different addresses have different names. -/
theorem addressName_injective : Function.Injective addressName := by
  intro i j same
  have inner := List.append_cancel_left (List.append_cancel_right same)
  have value := congrArg (Nat.ofDigitChars 10 · 0) inner
  simpa using value

/-- No section has more addresses than the file has values. -/
theorem missing_address (r : IniReader) (s : List Char) :
    ∃ i < r.values.length + 1, r.get s (addressName i) [] = [] := by
  by_contra all
  let names := (List.range (r.values.length + 1)).map addressName
  have distinct : names.Nodup := List.nodup_range.map addressName_injective
  have known : names ⊆ r.values.map fun e => e.1.2 := by
    intro name member
    obtain ⟨i, inside, rfl⟩ := List.mem_map.mp member
    cases found : r.values.find? fun e => decide (e.1 = (s, addressName i)) with
    | none => exact absurd ⟨i, List.mem_range.mp inside, by simp [IniReader.get, found]⟩ all
    | some e =>
      have key : e.1 = (s, addressName i) := by simpa using List.find?_some found
      exact List.mem_map.mpr ⟨e, List.mem_of_find?_eq_some found, congrArg Prod.snd key⟩
  have few := (List.subperm_of_subset distinct known).length_le
  simp only [names, List.length_map, List.length_range] at few
  omega

/-- The loop over the addresses ends at one that is missing or empty. -/
theorem addresses_end (r : IniReader) (s : List Char) :
    r.get s (addressName (addresses r s).length) [] = [] := by
  let seen := (List.range (r.values.length + 1)).map fun i => r.get s (addressName i) []
  have size : (addresses r s).length = seen.findIdx fun addr => !decide (addr ≠ []) := by
    rw [addresses, List.takeWhile_eq_take_findIdx_not, List.length_take]
    exact Nat.min_eq_left List.findIdx_le_length
  obtain ⟨i, inside, missing⟩ := missing_address r s
  have ends : seen.findIdx (fun addr => !decide (addr ≠ [])) < seen.length := by
    refine List.findIdx_lt_length_of_exists ⟨[], ?_, rfl⟩
    exact List.mem_map.mpr ⟨i, List.mem_range.mpr inside, missing⟩
  have stop := @List.findIdx_getElem _ (fun addr => !decide (addr ≠ [])) seen ends
  rw [size]
  simpa [seen] using stop

end GlobalConfig
end NetifyAgent
