import Mathlib.Data.Char
import Mathlib.Data.List.Lex
import NetifyAgent.Lib.OrderedMap
import NetifyAgent.Lib.Substrings

/-! Plugins. `AddPlugin` reads the sections of a plugin configuration file and tries every
library once; `ndPluginManager::Load` makes the plugins, starts their threads and keeps them
in the table of their type. -/
namespace NetifyAgent
open Substrings

/-- `ndPlugin::Type`. As an argument `TYPE_BASE` stands for both others. -/
inductive PluginType where
  | typeBase
  | typeProc
  | typeSink
  deriving DecidableEq, Repr

/-- The names of the types in `ndPlugin::types`. -/
def PluginType.name : PluginType → List Char
  | .typeBase => []
  | .typeProc => "processor".toList
  | .typeSink => "sink".toList

/-- `if (type != ndPlugin::TYPE_BASE && type != t.first) continue`. -/
def PluginType.Asks (type t : PluginType) : Prop := type = .typeBase ∨ type = t

instance (type t : PluginType) : Decidable (type.Asks t) :=
  inferInstanceAs (Decidable (_ ∨ _))

abbrev PluginTag := List Char

/-- `ndPlugin::Params`. -/
abbrev PluginParams := OrderedMap (List Char) (List Char)

/-- A section of a plugin configuration file. -/
structure PluginSection where
  enable : Bool
  pluginLibrary : List Char
  confFilename : List Char
  deriving DecidableEq, Repr

/-- A plugin configuration file as `INIReader` gives it. -/
structure PluginFile where
  parseError : Int := 0
  sections : OrderedMap PluginTag PluginSection

/-- `plugin_processors` and `plugin_sinks`: libraries and parameters. -/
structure PluginTables where
  processors : OrderedMap PluginTag (List Char × PluginParams) := ∅
  sinks : OrderedMap PluginTag (List Char × PluginParams) := ∅

structure PluginHost where
  /-- `nd_expand_variables` with `conf_vars`. -/
  expand : List Char → List Char
  /-- The type of the plugin that `ndPluginLoader` makes; `none` where it throws. -/
  loader : PluginTag → List Char → PluginParams → Option PluginType

/-! ## Configuration -/

def procWord : List Char := "proc-".toList
def sinkWord : List Char := "sink-".toList

/-- `mpi` and `type` of a section, if it is not passed by. -/
def pluginKind (tag : PluginTag) : Option PluginType :=
  match find procWord tag with
  | some p => if p = 0 then some .typeProc else none
  | none =>
    match find sinkWord tag with
    | some p => if p = 0 then some .typeSink else none
    | none => none

def PluginTables.get (tables : PluginTables) :
    PluginType → OrderedMap PluginTag (List Char × PluginParams)
  | .typeBase => ∅
  | .typeProc => tables.processors
  | .typeSink => tables.sinks

/-- `mpi->insert`; `none` if there is one already. -/
def PluginTables.insert (tables : PluginTables) (type : PluginType) (tag : PluginTag)
    (plugin : List Char × PluginParams) : Option PluginTables :=
  if ((tables.get type).get tag).isSome then none
  else
    match type with
    | .typeBase => none
    | .typeProc => some { tables with processors := tables.processors.set tag plugin }
    | .typeSink => some { tables with sinks := tables.sinks.set tag plugin }

variable (host : PluginHost)

def pluginParams (section_ : PluginSection) : PluginParams :=
  if section_.confFilename = [] then ∅
  else OrderedMap.set ∅ "conf_filename".toList (host.expand section_.confFilename)

/-- A round of the loop in `AddPlugin`; `none` where it returns false. -/
def addSection (tables : PluginTables) (e : PluginTag × PluginSection) : Option PluginTables :=
  match pluginKind e.1 with
  | none => some tables
  | some type =>
    if ¬ e.2.enable then some tables
    else if e.2.pluginLibrary = [] then none
    else if host.loader e.1 e.2.pluginLibrary (pluginParams host e.2) ≠ some type then none
    else tables.insert type e.1 (e.2.pluginLibrary, pluginParams host e.2)

/-- `ndGlobalConfig::AddPlugin`. -/
def addPlugin (tables : PluginTables) (file : PluginFile) : Option PluginTables :=
  if file.parseError ≠ 0 then none else file.sections.entries.foldlM (addSection host) tables

/-! ## The manager -/

/-- `ndPlugin`, with the number of its making. -/
structure Plugin where
  made : Nat
  type : PluginType
  /-- Its thread was created. -/
  created : Bool := false
  /-- It is asked to terminate. -/
  terminate : Bool := false
  /-- Its thread has ended. -/
  terminated : Bool := false
  deriving DecidableEq, Repr

/-- `ndPluginManager`. -/
structure PluginManager where
  processors : OrderedMap PluginTag Plugin := ∅
  sinks : OrderedMap PluginTag Plugin := ∅
  /-- How many plugins were made. -/
  made : Nat := 0
  /-- Plugins that are in no table. -/
  stray : List Plugin := []

inductive LoadError where
  | loader
  | wrongType
  | invalidType
  | duplicatePluginTag
  | failedToInsert
  deriving DecidableEq, Repr

namespace PluginManager

def table (m : PluginManager) : PluginType → OrderedMap PluginTag Plugin
  | .typeBase => ∅
  | .typeProc => m.processors
  | .typeSink => m.sinks

def setTable (m : PluginManager) (type : PluginType) (plugins : OrderedMap PluginTag Plugin) :
    PluginManager :=
  match type with
  | .typeBase => m
  | .typeProc => { m with processors := plugins }
  | .typeSink => { m with sinks := plugins }

/-- A round of the loop over the plugins of a type in `Load`. Where it throws the plugin that
was made stays behind. -/
def loadPlugin (t : PluginType) (create : Bool) (m : PluginManager)
    (e : PluginTag × List Char × PluginParams) :
    Except (PluginManager × PluginTag × LoadError) PluginManager :=
  match host.loader e.1 e.2.1 e.2.2 with
  | none => .error (m, e.1, .loader)
  | some type =>
    let plugin : Plugin := { made := m.made, type }
    let m := { m with made := m.made + 1 }
    if type ≠ t then .error ({ m with stray := m.stray ++ [plugin] }, e.1, .wrongType)
    else
      let plugin := { plugin with created := create }
      let lost := { m with stray := m.stray ++ [plugin] }
      if t = .typeBase then .error (lost, e.1, .invalidType)
      else if ((m.table t).get t.name).isSome then .error (lost, e.1, .duplicatePluginTag)
      else if ((m.table t).get e.1).isSome then .error (lost, e.1, .failedToInsert)
      else .ok (m.setTable t ((m.table t).set e.1 plugin))

/-- `ndPluginManager::Load`. -/
def load (tables : PluginTables) (type : PluginType) (create : Bool) (m : PluginManager) :
    Except (PluginManager × PluginTag × LoadError) PluginManager :=
  [PluginType.typeProc, .typeSink].foldlM
    (fun m t =>
      if type.Asks t then (tables.get t).entries.foldlM (loadPlugin host t create) m else .ok m) m

end PluginManager

end NetifyAgent
