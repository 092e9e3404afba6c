import Mathlib.Data.List.Nodup
import Mathlib.Data.List.Perm.Basic
import NetifyAgent.Lib.Runs
import NetifyAgent.PluginLoading

/-! The plugins while the agent runs. Their threads end at any time; processors dispatch
payloads to sinks; the instance thread reaps what has ended and, when it leaves its loop, asks
the processors to terminate and counts down until all of them are reaped. -/
namespace NetifyAgent.PluginRuns
open Runs

/-! ## Payloads -/

/-- What a payload says: `data`, `channels` and `flags`. -/
abbrev Content := List UInt8 × List (List Char) × UInt8

/-- `ndPluginSinkPayload`, with the number of its making. -/
structure PayloadObject where
  made : Nat
  content : Content
  deriving DecidableEq, Repr

/-- `DF_GZ_DEFLATE`. -/
def dfGzDeflate : UInt8 := 0x08

/-- `ndPluginSinkPayload::Create`. -/
def createContent (deflate : List UInt8 → List UInt8) (data : List UInt8)
    (channels : List (List Char)) (flags : UInt8) : Content :=
  if flags &&& dfGzDeflate = 0 then (data, channels, flags) else (deflate data, channels, flags)

/-- `Create` of a payload, with the flags that the argument has by default. -/
def copyContent (content : Content) : Content := (content.1, content.2.1, 0)

/-! ## The system -/

/-- What was sent. -/
inductive Sent where
  /-- `BroadcastSinkPayload`, and the last sink at that time. -/
  | broadcast (content : Content) (last : Option PluginTag)
  | dispatch (content : Content) (target : PluginTag)
  deriving DecidableEq, Repr

/-- What a sink gets of that. -/
def Sent.to (tag : PluginTag) : Sent → Option Content
  | .broadcast content last => some (if last = some tag then content else copyContent content)
  | .dispatch content target => if target = tag then some content else none

structure PluginSystem where
  manager : PluginManager
  /-- What `QueuePayload` was given, for each plugin. -/
  queued : Nat → List PayloadObject := fun _ => []
  /-- Plugins that are deleted. -/
  deleted : List Plugin := []
  /-- How many payloads were made. -/
  payloads : Nat := 0
  /-- Payloads that are deleted because there is no sink. -/
  dropped : List PayloadObject := []
  /-- Payloads that no sink has, because their target was not found. -/
  lost : List PayloadObject := []
  sent : List Sent := []
  /-- `proc_plugins`, when the loop of `ndInstance::Entry` is left. -/
  procPlugins : Option Nat := none

namespace PluginSystem
variable (s : PluginSystem)

/-- `QueuePayload`. -/
def queuePayload (made : Nat) (payload : PayloadObject) : PluginSystem :=
  { s with queued := fun n => if n = made then s.queued n ++ [payload] else s.queued n }

/-- The loop of `BroadcastSinkPayload` over the sinks from some sink on. -/
def broadcastLoop (payload : PayloadObject) : List (PluginTag × Plugin) → PluginSystem → PluginSystem
  | [], s => { s with dropped := s.dropped ++ [payload] }
  | [e], s => s.queuePayload e.2.made payload
  | e :: rest, s =>
    let copy : PayloadObject := ⟨s.payloads, copyContent payload.content⟩
    broadcastLoop payload rest
      ({ s with payloads := s.payloads + 1 }.queuePayload e.2.made copy)

/-- `BroadcastSinkPayload`. -/
def broadcastSinkPayload (payload : PayloadObject) : PluginSystem :=
  broadcastLoop payload s.manager.sinks.entries
    { s with sent := s.sent ++ [Sent.broadcast payload.content
      (s.manager.sinks.entries.getLast?.map Prod.fst)] }

/-- `ndPluginProcessor::DispatchSinkPayload`. It throws where the target is not found. -/
def dispatchSinkPayload (target : PluginTag) (payload : PayloadObject) : PluginSystem :=
  let s := { s with sent := s.sent ++ [Sent.dispatch payload.content target] }
  match s.manager.sinks.get target with
  | some p => s.queuePayload p.made payload
  | none => { s with lost := s.lost ++ [payload] }

/-- A payload is made. -/
def create (content : Content) : PayloadObject × PluginSystem :=
  (⟨s.payloads, content⟩, { s with payloads := s.payloads + 1 })

/-- A round of the loop over the types in `Reap`: plugins that have ended are deleted. -/
def reapTable (t : PluginType) : PluginSystem :=
  { s with
    manager := s.manager.setTable t ((s.manager.table t).filter fun e => ! e.2.terminated)
    deleted := s.deleted ++
      ((s.manager.table t).entries.filter fun e => e.2.terminated).map Prod.snd }

/-- `ndPluginManager::Reap`. -/
def reap (type : PluginType) : PluginSystem :=
  [PluginType.typeProc, .typeSink].foldl (fun s t => if type.Asks t then s.reapTable t else s) s

/-- What `Reap` returns. -/
def reaped (type : PluginType) : Nat := (s.reap type).deleted.length - s.deleted.length

/-- Assignments to the plugins of a table. -/
def edit (t : PluginType) (change : PluginTag → Plugin → Plugin) : PluginSystem :=
  { s with manager := s.manager.setTable t ((s.manager.table t).mapEntries change) }

/-- `ndPluginManager::Terminate` for processors, and what it returns. -/
def terminateProcessors : PluginSystem :=
  { s.edit .typeProc fun _ p => { p with terminate := true } with
    procPlugins := some s.manager.processors.entries.length }

end PluginSystem

inductive Action where
  /-- The thread of a plugin ends. -/
  | ends (type : PluginType) (tag : PluginTag)
  /-- `BroadcastSinkPayload` with a payload that a plugin has made. -/
  | broadcast (data : List UInt8) (channels : List (List Char)) (flags : UInt8)
  | dispatch (target : PluginTag) (data : List UInt8) (channels : List (List Char)) (flags : UInt8)
  /-- `plugins.Reap()` in the loop of `ndInstance::Entry`. -/
  | reap
  /-- The loop is left. -/
  | leave
  /-- A round of the loop that waits for the processors. -/
  | wait
  deriving DecidableEq, Repr

def step (deflate : List UInt8 → List UInt8) (s : PluginSystem) : Action → Option PluginSystem
  | .ends type tag =>
    some (s.edit type fun k p => if k = tag then { p with terminated := true } else p)
  | .broadcast data channels flags =>
    let made := s.create (createContent deflate data channels flags)
    some (made.2.broadcastSinkPayload made.1)
  | .dispatch target data channels flags =>
    let made := s.create (createContent deflate data channels flags)
    some (made.2.dispatchSinkPayload target made.1)
  | .reap => if s.procPlugins = none then some (s.reap .typeBase) else none
  | .leave => if s.procPlugins = none then some s.terminateProcessors else none
  | .wait => do
    let procPlugins ← s.procPlugins
    return { s.reap .typeProc with procPlugins := some (procPlugins - s.reaped .typeProc) }

/-! ## The account -/

/-- All plugins: those in the tables and those that are deleted. -/
def PluginSystem.plugins (s : PluginSystem) : List Plugin :=
  (s.manager.processors.entries ++ s.manager.sinks.entries).map Prod.snd ++ s.deleted

/-- All payloads: what sinks were given, what was deleted and what was lost. -/
def PluginSystem.objects (s : PluginSystem) : List PayloadObject :=
  (List.range s.manager.made).flatMap s.queued ++ (s.dropped ++ s.lost)

structure Sound (s : PluginSystem) : Prop where
  plugins : (s.plugins.map Plugin.made).Perm (List.range s.manager.made)
  payloads : (s.objects.map PayloadObject.made).Perm (List.range s.payloads)
  received : ∀ tag p, s.manager.sinks.get tag = some p →
    (s.queued p.made).map PayloadObject.content = s.sent.filterMap (Sent.to tag)
  reaped : ∀ p ∈ s.deleted, p.terminated = true

/-- The number of processors that are waited for. -/
def Counted (s : PluginSystem) : Prop :=
  ∀ n, s.procPlugins = some n → n = s.manager.processors.entries.length

/-! ## Queues -/

section
variable {s : PluginSystem}

/-- A payload that is queued at one of some numbers. -/
theorem flatMap_queue (queued : Nat → List PayloadObject) (payload : PayloadObject)
    {n made : Nat} (inside : made < n) :
    ((List.range n).flatMap fun i => if i = made then queued i ++ [payload] else queued i).Perm
      ((List.range n).flatMap queued ++ [payload]) := by
  induction n with
  | zero => exact absurd inside (Nat.not_lt_zero _)
  | succ n ih =>
    simp only [List.range_succ, List.flatMap_append, List.flatMap_singleton]
    by_cases last : n = made
    · have before : (List.range n).flatMap
          (fun i => if i = made then queued i ++ [payload] else queued i) =
          (List.range n).flatMap queued := by
        refine List.flatMap_congr fun i member => ?_
        rw [if_neg]
        have := List.mem_range.mp member
        omega
      rw [before, if_pos last, List.append_assoc]
    · rw [if_neg last]
      refine ((ih (by omega)).append_right _).trans ?_
      rw [List.append_assoc, List.append_assoc]
      exact (List.perm_append_comm).append_left _

theorem objects_queuePayload (payload : PayloadObject) {made : Nat} (inside : made < s.manager.made) :
    (s.queuePayload made payload).objects.Perm (payload :: s.objects) := by
  refine ((flatMap_queue s.queued payload inside).append_right _).trans ?_
  rw [List.append_assoc]
  exact List.perm_middle

/-- What the loop of a broadcast does: every sink is given one payload, the last one the
payload itself and the others copies. -/
structure Broadcasts (payload : PayloadObject) (entries : List (PluginTag × Plugin))
    (s t : PluginSystem) : Prop where
  manager : t.manager = s.manager
  sent : t.sent = s.sent
  deleted : t.deleted = s.deleted
  procPlugins : t.procPlugins = s.procPlugins
  given : ∀ e ∈ entries, (t.queued e.2.made).map PayloadObject.content =
    (s.queued e.2.made).map PayloadObject.content ++
      [if entries.getLast?.map Prod.fst = some e.1 then payload.content
        else copyContent payload.content]
  others : ∀ n, n ∉ entries.map (fun e => e.2.made) → t.queued n = s.queued n
  objects : (t.objects.map PayloadObject.made).Perm
    (s.objects.map PayloadObject.made ++
      (List.range' s.payloads (entries.length - 1) ++ [payload.made]))
  payloads : t.payloads = s.payloads + (entries.length - 1)

theorem broadcastLoop_spec (payload : PayloadObject) (entries : List (PluginTag × Plugin))
    (sinks : entries ≠ [])
    (sorted : entries.Pairwise fun a b => a.1 < b.1)
    (apart : (entries.map fun e => e.2.made).Nodup)
    (inside : ∀ e ∈ entries, e.2.made < s.manager.made) :
    Broadcasts payload entries s (PluginSystem.broadcastLoop payload entries s) := by
  induction entries generalizing s with
  | nil => exact absurd rfl sinks
  | cons e rest ih =>
    have here := inside e List.mem_cons_self
    cases rest with
    | nil =>
      refine ⟨rfl, rfl, rfl, rfl, fun e' member => ?_, fun n other => ?_, ?_, rfl⟩
      · cases List.mem_singleton.mp member
        simp [PluginSystem.broadcastLoop, PluginSystem.queuePayload]
      · simp only [List.map_cons, List.map_nil, List.mem_singleton] at other
        exact if_neg other
      · have one := (objects_queuePayload payload here).map PayloadObject.made
        exact one.trans (List.perm_append_singleton _ _).symm
    | cons next rest =>
      obtain ⟨t, queued⟩ : ∃ t, t = PluginSystem.queuePayload { s with payloads := s.payloads + 1 }
        e.2.made ⟨s.payloads, copyContent payload.content⟩ := ⟨_, rfl⟩
      have looped := ih (s := t) (List.cons_ne_nil _ _) sorted.of_cons
        (List.nodup_cons.mp apart).2 (by
          intro e' member
          rw [queued]
          exact inside e' (List.mem_cons_of_mem _ member))
      have same : PluginSystem.broadcastLoop payload (e :: next :: rest) s =
          PluginSystem.broadcastLoop payload (next :: rest) t := by
        rw [queued]
        rfl
      have alone : e.2.made ∉ (next :: rest).map fun e => e.2.made := (List.nodup_cons.mp apart).1
      have queuedAt (n : Nat) : t.queued n = if n = e.2.made
          then s.queued n ++ [⟨s.payloads, copyContent payload.content⟩] else s.queued n := by
        rw [queued]
        rfl
      have notLast : (e :: next :: rest).getLast?.map Prod.fst ≠ some e.1 := by
        intro last
        obtain ⟨e', final, tag⟩ := Option.map_eq_some_iff.mp last
        rw [List.getLast?_cons_cons] at final
        have less := List.rel_of_pairwise_cons sorted (List.mem_of_getLast? final)
        exact absurd tag (ne_of_gt less)
      rw [same]
      refine ⟨?_, ?_, ?_, ?_, fun e' member => ?_, fun n other => ?_, ?_, ?_⟩
      · rw [looped.manager, queued]
        rfl
      · rw [looped.sent, queued]
        rfl
      · rw [looped.deleted, queued]
        rfl
      · rw [looped.procPlugins, queued]
        rfl
      · rcases List.mem_cons.mp member with rfl | later
        · rw [looped.others _ alone, queuedAt, if_pos rfl, List.map_append, if_neg notLast]
          rfl
        · have apart' : e'.2.made ≠ e.2.made := fun both =>
            alone (both ▸ List.mem_map_of_mem later)
          rw [looped.given e' later, queuedAt, if_neg apart', List.getLast?_cons_cons]
      · rw [List.map_cons, List.mem_cons, not_or] at other
        rw [looped.others n other.2, queuedAt, if_neg other.1]
      · have one := (objects_queuePayload (s := { s with payloads := s.payloads + 1 })
          ⟨s.payloads, copyContent payload.content⟩ here).map PayloadObject.made
        rw [← queued] at one
        have next : t.payloads = s.payloads + 1 := by rw [queued]; rfl
        refine looped.objects.trans ((one.append_right _).trans ?_)
        rw [next]
        exact List.perm_middle.symm
      · rw [looped.payloads, queued]
        show s.payloads + 1 + rest.length = s.payloads + (rest.length + 1)
        omega

/-! ## What the steps keep -/

theorem Sound.inside (sound : Sound s) {e : PluginTag × Plugin}
    (member : e ∈ s.manager.sinks.entries) : e.2.made < s.manager.made := by
  refine List.mem_range.mp (sound.plugins.mem_iff.mp (List.mem_map_of_mem ?_))
  exact List.mem_append_left _ (List.mem_map_of_mem (List.mem_append_right _ member))

theorem Sound.apart (sound : Sound s) : (s.manager.sinks.entries.map fun e => e.2.made).Nodup := by
  have all : (s.plugins.map Plugin.made).Nodup := sound.plugins.nodup_iff.mpr List.nodup_range
  refine all.sublist ?_
  rw [PluginSystem.plugins, List.map_append, List.map_append, List.map_append, List.map_map,
    List.map_map]
  exact (List.sublist_append_right _ _).trans (List.sublist_append_left _ _)

/-- Sinks with different tags are different objects. -/
theorem Sound.other (sound : Sound s) {tag tag' : PluginTag} {p p' : Plugin}
    (here : s.manager.sinks.get tag = some p) (there : s.manager.sinks.get tag' = some p')
    (differ : tag ≠ tag') : p.made ≠ p'.made := by
  intro same
  have entries := List.inj_on_of_nodup_map sound.apart (OrderedMap.mem_entries.mpr here)
    (OrderedMap.mem_entries.mpr there) same
  exact differ (congrArg Prod.fst entries)

theorem sound_broadcast {content : Content} (sound : Sound s) :
    Sound ((s.create content).2.broadcastSinkPayload (s.create content).1) := by
  obtain ⟨sinks, entries⟩ : ∃ sinks, s.manager.sinks.entries = sinks := ⟨_, rfl⟩
  cases sinks with
  | nil =>
    have dropped : (s.create content).2.broadcastSinkPayload (s.create content).1 =
        { s with
          payloads := s.payloads + 1
          sent := s.sent ++ [.broadcast content none]
          dropped := s.dropped ++ [⟨s.payloads, content⟩] } := by
      simp only [PluginSystem.create, PluginSystem.broadcastSinkPayload, entries,
        PluginSystem.broadcastLoop]
      rfl
    rw [dropped]
    refine ⟨sound.plugins, ?_, fun tag p held => ?_, sound.reaped⟩
    · have account := sound.payloads.append_right [s.payloads]
      rw [← List.range_succ] at account
      refine List.Perm.trans ?_ account
      simp only [PluginSystem.objects, List.map_append, List.append_assoc]
      exact ((List.perm_append_comm.append_left _).append_left _)
    · have member := OrderedMap.mem_entries.mpr held
      rw [entries] at member
      cases member
  | cons first rest =>
    obtain ⟨start, begun⟩ : ∃ start, start = { s with
        payloads := s.payloads + 1
        sent := s.sent ++ [Sent.broadcast content (s.manager.sinks.entries.getLast?.map Prod.fst)] } :=
      ⟨_, rfl⟩
    have same : (s.create content).2.broadcastSinkPayload (s.create content).1 =
        PluginSystem.broadcastLoop ⟨s.payloads, content⟩ s.manager.sinks.entries start := by
      rw [begun]
      rfl
    have looped := broadcastLoop_spec ⟨s.payloads, content⟩ s.manager.sinks.entries
      (s := start) (by rw [entries]; exact List.cons_ne_nil _ _) s.manager.sinks.sorted sound.apart
      (fun e member => by rw [begun]; exact sound.inside member)
    rw [same]
    generalize PluginSystem.broadcastLoop ⟨s.payloads, content⟩ s.manager.sinks.entries start = t
      at looped
    have manager : t.manager = s.manager := looped.manager.trans (by rw [begun])
    have sent : t.sent = s.sent ++
        [Sent.broadcast content (s.manager.sinks.entries.getLast?.map Prod.fst)] :=
      looped.sent.trans (by rw [begun])
    have deleted : t.deleted = s.deleted := looped.deleted.trans (by rw [begun])
    refine ⟨?_, ?_, fun tag p held => ?_, deleted ▸ sound.reaped⟩
    · rw [PluginSystem.plugins, manager, deleted]
      exact sound.plugins
    · have objects : start.objects = s.objects := by
        rw [begun]
        rfl
      have count : start.payloads = s.payloads + 1 := by rw [begun]
      have account := looped.objects
      rw [objects, count] at account
      rw [looped.payloads, count]
      refine account.trans ((sound.payloads.append_right _).trans ?_)
      rw [List.range_eq_range', List.range_eq_range', Nat.add_assoc, ← List.range'_append_1,
        Nat.zero_add, Nat.add_comm 1, List.range'_succ]
      exact (List.perm_append_singleton _ _).append_left _
    · rw [manager] at held
      have member := OrderedMap.mem_entries.mpr held
      have before : start.queued p.made = s.queued p.made := by rw [begun]
      rw [looped.given _ member, before, sound.received tag p held, sent, List.filterMap_append]
      rfl

theorem sound_dispatch {content : Content} {target : PluginTag} (sound : Sound s) :
    Sound ((s.create content).2.dispatchSinkPayload target (s.create content).1) := by
  cases found : s.manager.sinks.get target with
  | none =>
    have lost : (s.create content).2.dispatchSinkPayload target (s.create content).1 =
        { s with
          payloads := s.payloads + 1
          sent := s.sent ++ [.dispatch content target]
          lost := s.lost ++ [⟨s.payloads, content⟩] } := by
      simp only [PluginSystem.create, PluginSystem.dispatchSinkPayload, found]
    rw [lost]
    refine ⟨sound.plugins, ?_, fun tag p held => ?_, sound.reaped⟩
    · have account := sound.payloads.append_right [s.payloads]
      rw [← List.range_succ] at account
      refine List.Perm.trans (List.Perm.of_eq ?_) account
      simp only [PluginSystem.objects, List.map_append, List.append_assoc]
      rfl
    · have other : target ≠ tag := by
        rintro rfl
        rw [found] at held
        cases held
      show (s.queued p.made).map _ = (s.sent ++ _).filterMap _
      rw [sound.received tag p held, List.filterMap_append]
      simp [Sent.to, other]
  | some sink =>
    have given : (s.create content).2.dispatchSinkPayload target (s.create content).1 =
        PluginSystem.queuePayload { s with
          payloads := s.payloads + 1
          sent := s.sent ++ [.dispatch content target] } sink.made ⟨s.payloads, content⟩ := by
      simp only [PluginSystem.create, PluginSystem.dispatchSinkPayload, found]
    have inside := sound.inside (OrderedMap.mem_entries.mpr found)
    rw [given]
    refine ⟨sound.plugins, ?_, fun tag p held => ?_, sound.reaped⟩
    · have one := (objects_queuePayload (s := { s with
          payloads := s.payloads + 1
          sent := s.sent ++ [.dispatch content target] }) ⟨s.payloads, content⟩ inside).map
        PayloadObject.made
      refine one.trans ?_
      rw [List.map_cons]
      refine List.Perm.trans ?_ (List.range_succ ▸ sound.payloads.append_right [s.payloads])
      exact (List.perm_append_singleton _ _).symm
    · show (if p.made = sink.made then s.queued p.made ++ _ else s.queued p.made).map _ =
        (s.sent ++ _).filterMap _
      have held : s.manager.sinks.get tag = some p := held
      rw [List.filterMap_append]
      by_cases here : target = tag
      · subst here
        rw [held] at found
        cases found
        rw [if_pos rfl, List.map_append, sound.received _ _ held]
        simp [Sent.to]
      · rw [if_neg (sound.other held found (Ne.symm here)), sound.received tag p held]
        simp [Sent.to, here]

/-- An assignment that leaves the objects what they are. -/
theorem sound_edit {t : PluginType} {change : PluginTag → Plugin → Plugin}
    (same : ∀ k p, (change k p).made = p.made) (sound : Sound s) : Sound (s.edit t change) := by
  cases t with
  | typeBase => exact sound
  | typeProc =>
    refine ⟨?_, sound.payloads, sound.received, sound.reaped⟩
    refine List.Perm.trans (List.Perm.of_eq ?_) sound.plugins
    simp [PluginSystem.plugins, PluginSystem.edit, PluginManager.setTable, PluginManager.table,
      OrderedMap.mapEntries, same, Function.comp_def]
  | typeSink =>
    refine ⟨?_, sound.payloads, fun tag p held => ?_, sound.reaped⟩
    · refine List.Perm.trans (List.Perm.of_eq ?_) sound.plugins
      simp [PluginSystem.plugins, PluginSystem.edit, PluginManager.setTable, PluginManager.table,
        OrderedMap.mapEntries, same, Function.comp_def]
    · have changed : (s.manager.sinks.mapEntries change).get tag = some p := held
      rw [OrderedMap.get_mapEntries, Option.map_eq_some_iff] at changed
      obtain ⟨old, stored, rfl⟩ := changed
      rw [same]
      exact sound.received tag old stored

theorem sound_reapTable {t : PluginType} (sound : Sound s) : Sound (s.reapTable t) := by
  have parts (entries : List (PluginTag × Plugin)) :
      (entries.filter (fun e => ! e.2.terminated) ++ entries.filter fun e => e.2.terminated).Perm
        entries :=
    List.perm_append_comm.trans (List.filter_append_perm _ _)
  have ended : ∀ p ∈ (s.reapTable t).deleted, p.terminated = true := by
    intro p member
    rcases List.mem_append.mp member with old | fresh
    · exact sound.reaped p old
    · obtain ⟨e, kept, rfl⟩ := List.mem_map.mp fresh
      simpa using (List.mem_filter.mp kept).2
  cases t with
  | typeBase =>
    refine ⟨?_, sound.payloads, sound.received, ended⟩
    show ((_ ++ (s.deleted ++ [])).map Plugin.made).Perm _
    rw [List.append_nil]
    exact sound.plugins
  | typeProc =>
    refine ⟨?_, sound.payloads, sound.received, ended⟩
    refine List.Perm.trans (List.Perm.map _ ?_) sound.plugins
    have whole := (((parts s.manager.processors.entries).map Prod.snd).append_right
      (s.manager.sinks.entries.map Prod.snd)).append_right s.deleted
    rw [PluginSystem.plugins, PluginSystem.plugins, List.map_append, List.map_append]
    refine List.Perm.trans ?_ whole
    rw [List.map_append, List.append_assoc, List.append_assoc, List.append_assoc]
    have moved (a b c : List Plugin) : (a ++ (b ++ c)).Perm (c ++ (a ++ b)) := by
      rw [← List.append_assoc]
      exact List.perm_append_comm
    exact (moved _ _ _).append_left _
  | typeSink =>
    refine ⟨?_, sound.payloads, fun tag p held => ?_, ended⟩
    · refine List.Perm.trans (List.Perm.map _ ?_) sound.plugins
      have whole := (((parts s.manager.sinks.entries).map Prod.snd).append_left
        (s.manager.processors.entries.map Prod.snd)).append_right s.deleted
      rw [PluginSystem.plugins, PluginSystem.plugins, List.map_append, List.map_append]
      refine List.Perm.trans ?_ whole
      rw [List.map_append, List.append_assoc, List.append_assoc, List.append_assoc]
      exact (List.perm_append_comm.append_left _).append_left _
    · exact sound.received tag p (OrderedMap.get_filter_eq_some.mp held).1

theorem reap_typeProc (s : PluginSystem) : s.reap .typeProc = s.reapTable .typeProc := by
  simp [PluginSystem.reap, PluginType.Asks]

theorem reap_typeBase (s : PluginSystem) :
    s.reap .typeBase = (s.reapTable .typeProc).reapTable .typeSink := by
  simp [PluginSystem.reap, PluginType.Asks]

theorem sound_step {deflate : List UInt8 → List UInt8} {t : PluginSystem} {action : Action}
    (sound : Sound s) (taken : step deflate s action = some t) : Sound t := by
  cases action with
  | ends type tag =>
    cases taken
    refine sound_edit (fun k p => ?_) sound
    split <;> rfl
  | broadcast data channels flags =>
    cases taken
    exact sound_broadcast sound
  | dispatch target data channels flags =>
    cases taken
    exact sound_dispatch sound
  | reap =>
    simp only [step] at taken
    split at taken
    · cases taken
      rw [reap_typeBase]
      exact sound_reapTable (sound_reapTable sound)
    · cases taken
  | leave =>
    simp only [step] at taken
    split at taken
    · cases taken
      have edited : Sound (s.edit .typeProc fun _ p => { p with terminate := true }) :=
        sound_edit (fun _ _ => rfl) sound
      exact ⟨edited.plugins, edited.payloads, edited.received, edited.reaped⟩
    · cases taken
  | wait =>
    simp only [step, Option.bind_eq_bind, Option.bind_eq_some_iff] at taken
    obtain ⟨procPlugins, -, taken⟩ := taken
    cases taken
    have left : Sound (s.reap .typeProc) := by
      rw [reap_typeProc]
      exact sound_reapTable sound
    exact ⟨left.plugins, left.payloads, left.received, left.reaped⟩

/-- What a round reaps, and what it leaves. -/
theorem reaped_typeProc (s : PluginSystem) :
    s.reaped .typeProc = s.manager.processors.entries.countP (fun e => e.2.terminated) ∧
      s.reaped .typeProc + (s.reap .typeProc).manager.processors.entries.length =
        s.manager.processors.entries.length := by
  have all := List.length_eq_countP_add_countP (fun e : PluginTag × Plugin => e.2.terminated)
    (l := s.manager.processors.entries)
  have gone : s.reaped .typeProc =
      s.manager.processors.entries.countP (fun e => e.2.terminated) := by
    rw [PluginSystem.reaped, reap_typeProc]
    show (s.deleted ++ (List.filter _ s.manager.processors.entries).map Prod.snd).length - _ = _
    rw [List.length_append, List.length_map, ← List.countP_eq_length_filter]
    omega
  refine ⟨gone, ?_⟩
  rw [gone, reap_typeProc]
  show _ + (List.filter _ s.manager.processors.entries).length = _
  rw [← List.countP_eq_length_filter, all]
  simp

/-- Sending changes no table. -/
structure Sends (s t : PluginSystem) : Prop where
  manager : t.manager = s.manager
  deleted : t.deleted = s.deleted
  procPlugins : t.procPlugins = s.procPlugins

theorem broadcastLoop_sends (payload : PayloadObject) (entries : List (PluginTag × Plugin))
    (s : PluginSystem) : Sends s (PluginSystem.broadcastLoop payload entries s) := by
  induction entries generalizing s with
  | nil => exact ⟨rfl, rfl, rfl⟩
  | cons e rest ih =>
    cases rest with
    | nil => exact ⟨rfl, rfl, rfl⟩
    | cons next rest =>
      obtain ⟨manager, deleted, procPlugins⟩ := ih _
      exact ⟨manager, deleted, procPlugins⟩

theorem dispatch_sends (content : Content) (target : PluginTag) (s : PluginSystem) :
    Sends s ((s.create content).2.dispatchSinkPayload target (s.create content).1) := by
  simp only [PluginSystem.create, PluginSystem.dispatchSinkPayload]
  split <;> exact ⟨rfl, rfl, rfl⟩

theorem counted_step {deflate : List UInt8 → List UInt8} {t : PluginSystem} {action : Action}
    (counted : Counted s) (taken : step deflate s action = some t) : Counted t := by
  have sent (sends : Sends s t) : Counted t := fun n waits => by
    rw [sends.manager]
    exact counted n (sends.procPlugins ▸ waits)
  cases action with
  | ends type tag =>
    cases taken
    intro n waits
    have before := counted n waits
    cases type with
    | typeBase => exact before
    | typeProc => exact before.trans (List.length_map _).symm
    | typeSink => exact before
  | broadcast data channels flags =>
    cases taken
    obtain ⟨manager, deleted, procPlugins⟩ := broadcastLoop_sends
      (s.create (createContent deflate data channels flags)).1 s.manager.sinks.entries
      { (s.create (createContent deflate data channels flags)).2 with
        sent := s.sent ++ [.broadcast (createContent deflate data channels flags)
          (s.manager.sinks.entries.getLast?.map Prod.fst)] }
    exact sent ⟨manager, deleted, procPlugins⟩
  | dispatch target data channels flags =>
    cases taken
    exact sent (dispatch_sends _ _ _)
  | reap =>
    simp only [step] at taken
    split at taken
    · next running =>
      cases taken
      rw [reap_typeBase]
      intro n waits
      exact absurd (waits.symm.trans running) nofun
    · cases taken
  | leave =>
    simp only [step] at taken
    split at taken
    · cases taken
      intro n waits
      cases waits
      exact (List.length_map _).symm
    · cases taken
  | wait =>
    simp only [step, Option.bind_eq_bind, Option.bind_eq_some_iff] at taken
    obtain ⟨procPlugins, waits, taken⟩ := taken
    cases taken
    intro n left
    cases left
    have before := counted procPlugins waits
    have sum := (reaped_typeProc s).2
    show procPlugins - s.reaped .typeProc = (s.reap .typeProc).manager.processors.entries.length
    omega

theorem made_step {deflate : List UInt8 → List UInt8} {t : PluginSystem} {action : Action}
    (taken : step deflate s action = some t) : t.manager.made = s.manager.made := by
  have kept (type : PluginType) (plugins : OrderedMap PluginTag Plugin) (m : PluginManager) :
      (m.setTable type plugins).made = m.made := by
    cases type <;> rfl
  cases action with
  | ends type tag =>
    cases taken
    exact kept _ _ _
  | broadcast data channels flags =>
    cases taken
    exact congrArg PluginManager.made (broadcastLoop_sends _ _ _).manager
  | dispatch target data channels flags =>
    cases taken
    exact congrArg PluginManager.made (dispatch_sends _ _ _).manager
  | reap =>
    simp only [step] at taken
    split at taken
    · cases taken
      rw [reap_typeBase]
      exact (kept _ _ _).trans (kept _ _ _)
    · cases taken
  | leave =>
    simp only [step] at taken
    split at taken
    · cases taken
      rfl
    · cases taken
  | wait =>
    simp only [step, Option.bind_eq_bind, Option.bind_eq_some_iff] at taken
    obtain ⟨procPlugins, -, taken⟩ := taken
    cases taken
    show (s.reap .typeProc).manager.made = _
    rw [reap_typeProc]
    exact kept _ _ _

/-! ## Runs -/

/-- The manager when the instance thread is started. -/
def Started (host : PluginHost) (files : List PluginFile) (m : PluginManager) : Prop :=
  ∃ tables, files.foldlM (addPlugin host) {} = some tables ∧
    PluginManager.load host tables .typeBase true {} = .ok m

theorem kept_reached {host : PluginHost} {files : List PluginFile} {m : PluginManager}
    {deflate : List UInt8 → List UInt8} (started : Started host files m)
    (reached : Reaches (step deflate) Always { manager := m } s) :
    Sound s ∧ Counted s ∧ s.manager.made = m.made := by
  obtain ⟨tables, added, loads⟩ := started
  obtain ⟨m', loads', -, -, -, numbered⟩ := PluginLoading.load_configured added
  cases loads.symm.trans loads'
  have sound : Sound { manager := m } := by
    refine ⟨?_, ?_, fun tag p _ => rfl, nofun⟩
    · refine List.Perm.of_eq (Eq.trans ?_ numbered)
      simp [PluginSystem.plugins, Function.comp_def]
    · simp [PluginSystem.objects]
  exact reached.invariant (I := fun s => Sound s ∧ Counted s ∧ s.manager.made = m.made)
    ⟨sound, nofun, rfl⟩ fun _ _ _ kept taken _ =>
      ⟨sound_step kept.1 taken, counted_step kept.2.1 taken, (made_step taken).trans kept.2.2⟩

/-- **Payloads.** In every run of the plugins each payload that is made is in one place: it
was queued at one sink, deleted for want of one, or lost because its target was not found. A
sink was given what was broadcast and what was dispatched to it, in that order; of a broadcast
only the last sink gets the flags. -/
theorem payloads_reached {host : PluginHost} {files : List PluginFile} {m : PluginManager}
    {deflate : List UInt8 → List UInt8} (started : Started host files m)
    (reached : Reaches (step deflate) Always { manager := m } s) :
    (s.objects.map PayloadObject.made).Perm (List.range s.payloads) ∧
      ∀ tag p, s.manager.sinks.get tag = some p →
        (s.queued p.made).map PayloadObject.content = s.sent.filterMap (Sent.to tag) :=
  have sound := (kept_reached started reached).1
  ⟨sound.payloads, sound.received⟩

/-- **Waiting for the processors.** In every run each plugin that was loaded is in a table or
was deleted, once and after its thread has ended; the number of processors that are waited for
never passes zero, and a round ends the wait exactly if all of them have ended. -/
theorem processors_reaped {host : PluginHost} {files : List PluginFile} {m : PluginManager}
    {deflate : List UInt8 → List UInt8} (started : Started host files m)
    (reached : Reaches (step deflate) Always { manager := m } s) :
    (s.plugins.map Plugin.made).Perm (List.range m.made) ∧
      (∀ p ∈ s.deleted, p.terminated = true) ∧
      (∀ n, s.procPlugins = some n → s.reaped .typeProc ≤ n) ∧
      ∀ t, step deflate s .wait = some t → (t.procPlugins = some 0 ↔
        ∀ e ∈ s.manager.processors.entries, e.2.terminated = true) := by
  obtain ⟨sound, counted, made⟩ := kept_reached started reached
  obtain ⟨ended, sum⟩ := reaped_typeProc s
  refine ⟨made ▸ sound.plugins, sound.reaped, fun n waits => ?_, fun t taken => ?_⟩
  · have all := counted n waits
    omega
  · simp only [step, Option.bind_eq_bind, Option.bind_eq_some_iff] at taken
    obtain ⟨n, waits, taken⟩ := taken
    cases taken
    have all := counted n waits
    have every := List.countP_eq_length (p := fun e : PluginTag × Plugin => e.2.terminated)
      (l := s.manager.processors.entries)
    rw [← every, ← ended]
    simp only [Option.some.injEq]
    omega

/-! ## One run -/

/-- A processor and two sinks. -/
def threePlugins : PluginFile where
  sections := ⟨[("proc-core".toList, ⟨true, ['p'], []⟩), ("sink-http".toList, ⟨true, ['s'], []⟩),
    ("sink-log".toList, ⟨true, ['s'], []⟩)], by decide +kernel⟩

def threeTables : PluginTables :=
  ([threePlugins].foldlM (addPlugin PluginLoading.twoLibraries) {}).getD {}

/-- The manager with them. -/
def threeManager : PluginManager :=
  match PluginManager.load PluginLoading.twoLibraries threeTables .typeBase true {} with
  | .ok m => m
  | .error e => e.1

theorem threePlugins_started : Started PluginLoading.twoLibraries [threePlugins] threeManager := by
  have accepted : ([threePlugins].foldlM (addPlugin PluginLoading.twoLibraries) {}).isSome := by
    decide +kernel
  obtain ⟨tables, added⟩ := Option.isSome_iff_exists.mp accepted
  have same : threeTables = tables := by rw [threeTables, added, Option.getD_some]
  obtain ⟨m, loads, -⟩ := PluginLoading.load_configured added
  refine ⟨tables, added, ?_⟩
  rw [threeManager, same, loads]

/-- A broadcast, a payload for one of the sinks and one for none. -/
theorem threePlugins_sent : ∃ s p, Reaches (step id) Always { manager := threeManager } s ∧
    s.manager.sinks.get "sink-http".toList = some p ∧
      (s.queued p.made).map PayloadObject.content = [([1], [], 0), ([2], [], 2)] ∧
      (s.objects.map PayloadObject.made).Perm [0, 1, 2, 3] := by
  have found : (exec (step id) Always { manager := threeManager }
      [.broadcast [1] [] 1, .dispatch "sink-http".toList [2] [] 2, .dispatch [] [3] [] 0]).any
        (fun s => (s.manager.sinks.get "sink-http".toList).isSome && s.payloads == 4 &&
          s.sent.filterMap (Sent.to "sink-http".toList) == [([1], [], 0), ([2], [], 2)]) = true := by
    decide +kernel
  obtain ⟨s, reached, holds⟩ := reached_of_exec found
  simp only [Bool.and_eq_true, beq_iff_eq] at holds
  obtain ⟨⟨some, count⟩, sent⟩ := holds
  obtain ⟨p, held⟩ := Option.isSome_iff_exists.mp some
  obtain ⟨account, received⟩ := payloads_reached threePlugins_started reached
  rw [count] at account
  exact ⟨s, p, reached, held, (received _ p held).trans sent, account.trans (.of_eq (by decide))⟩

/-- The processor has ended before the loop is left: one round is enough. -/
theorem threePlugins_waited : ∃ s t, Reaches (step id) Always { manager := threeManager } s ∧
    s.procPlugins = some 1 ∧ step id s .wait = some t ∧ t.procPlugins = some 0 := by
  have found : (exec (step id) Always { manager := threeManager }
      [.ends .typeProc "proc-core".toList, .leave]).any (fun s => s.procPlugins == some 1 &&
        s.manager.processors.entries.all fun e => e.2.terminated) = true := by decide +kernel
  obtain ⟨s, reached, holds⟩ := reached_of_exec found
  simp only [Bool.and_eq_true, beq_iff_eq, List.all_eq_true] at holds
  obtain ⟨waits, ended⟩ := holds
  obtain ⟨-, -, -, last⟩ := processors_reaped threePlugins_started reached
  obtain ⟨t, taken⟩ : ∃ t, step id s .wait = some t := by
    simp [step, waits]
  exact ⟨s, t, reached, waits, taken, (last t taken).mpr ended⟩

end

end NetifyAgent.PluginRuns
