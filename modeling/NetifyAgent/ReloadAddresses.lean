import NetifyAgent.AddressSlots
import NetifyAgent.CaptureReload

/-! The addresses of the interfaces after a reload. What a reload does to the address
tables is a list of calls, and what they leave in a slot is found by looking at the calls
for this slot alone. An interface that is kept has its dropped addresses removed where
`RemoveAddress` can; one that has changed or is deleted loses the addresses it has now and
not those it had before. -/
namespace NetifyAgent
open RadixNetworkEntry RadixNetworks RadixKeys RadixTable RadixInsert NdAddrType

/-- Both families of addresses have their length. -/
structure Pton.Sized (pton : Pton) : Prop where
  inet : ∀ text bytes, pton.inet text = some bytes → bytes.length = 4
  inet6 : ∀ text bytes, pton.inet6 text = some bytes → bytes.length = 16

namespace NdAddrType

/-- Whether a slot is filled. -/
def present (types : NdAddrType) : AddrSlot → Bool
  | .ether mac => (types.etherReserved mac).isSome
  | .ipv4 ifname network =>
    let tree := if ifname = [] then types.ipv4Reserved else types.ipv4Iface.table ifname
    (tree.find (ofBits 32 network)).isSome
  | .ipv6 ifname network =>
    let tree := if ifname = [] then types.ipv6Reserved else types.ipv6Iface.table ifname
    (tree.find (ofBits 128 network)).isSome

end NdAddrType

namespace CaptureInstance

/-! ## Calls -/

/-- A call for an address of an interface. -/
inductive AddrCall where
  | add (ifname a : List Char)
  | remove (ifname a : List Char)
  deriving DecidableEq, Repr

/-- The slot of an address of an interface. -/
def slotOf (pton : Pton) (ifname a : List Char) : Option AddrSlot :=
  slot (Addr.ofText pton a) ifname

namespace AddrCall
variable (env : ReloadInput)

def apply (types : NdAddrType) : AddrCall → NdAddrType
  | .add ifname a => addLocal env types ifname a
  | .remove ifname a => CaptureInstance.remove env types ifname a

/-- What a call makes of one slot. -/
def mark (pton : Pton) (s : AddrSlot) (filled : Bool) : AddrCall → Bool
  | .add ifname a => filled || decide (slotOf pton ifname a = some s)
  | .remove ifname a => filled && !(s.removable && decide (slotOf pton ifname a = some s))

/-- What an address is added to makes the radix tree store it where it belongs. -/
def Visible (pton : Pton) (filled : AddrSlot → Bool) : AddrCall → Prop
  | .add ifname a => ∀ s ∈ slotOf pton ifname a,
    s.Visible fun s => if filled s then some () else none
  | .remove _ _ => True

/-- This holds of all the calls of a list, each where it is made. -/
def AllVisible (pton : Pton) (filled : AddrSlot → Bool) : List AddrCall → Prop
  | [] => True
  | call :: rest => Visible pton filled call ∧
    AllVisible pton (fun s => call.mark pton s (filled s)) rest

end AddrCall

/-- The tables hold what fills these slots. -/
def Filled (types : NdAddrType) (filled : AddrSlot → Bool) : Prop :=
  ∃ contents, Holds types contents ∧ ∀ s, (contents s).isSome = filled s

/-- An unordered map is traversed in some order. -/
def Arranges (env : ReloadInput) : Prop :=
  ∀ types addr ifname, addr.isIPv6 = true → ifname ∉ types.ipv6Iface.names →
    ∀ name ∈ ifname :: types.ipv6Iface.names, name ∈ env.arrange types addr ifname

section
variable {env : ReloadInput} {types : NdAddrType} {filled : AddrSlot → Bool}

theorem eclipsed_congr {V W : Type} {inside : List Bool → Option V} {inside' : List Bool → Option W}
    (same : ∀ rest, inside rest = none ↔ inside' rest = none) :
    Eclipsed inside ↔ Eclipsed inside' := by
  simp only [Eclipsed, ne_eq, same]

theorem visible_of_filled {contents : AddrSlot → Option AddrType}
    (same : ∀ s, (contents s).isSome = filled s) {s : AddrSlot}
    (visible : s.Visible fun s => if filled s then some () else none) : s.Visible contents := by
  have absent (s : AddrSlot) : (if filled s then some () else none) = none ↔ contents s = none := by
    rw [← same s]
    cases contents s <;> simp
  cases s with
  | ether mac => trivial
  | ipv4 ifname network => exact mt (eclipsed_congr fun _ => absent _).mpr visible
  | ipv6 ifname network => exact mt (eclipsed_congr fun _ => absent _).mpr visible

theorem sized_ofText {pton : Pton} (sized : pton.Sized) (a : List Char) :
    Sized (Addr.ofText pton a) := by
  unfold Addr.ofText Addr.createText
  simp only
  split
  · exact ⟨fun _ => rfl, fun _ => rfl⟩
  · split
    case h_1 inet =>
      have length := sized.inet _ _ inet
      split <;> exact ⟨fun _ => length, fun _ => rfl⟩
    case h_2 =>
      split
      case h_1 inet6 =>
        have length := sized.inet6 _ _ inet6
        split <;> exact ⟨fun _ => rfl, fun _ => length⟩
      case h_2 =>
        split
        · split
          · refine ⟨fun family => ?_, fun family => ?_⟩ <;> cases family
          · exact ⟨fun _ => rfl, fun _ => rfl⟩
        · exact ⟨fun _ => rfl, fun _ => rfl⟩

/-- **One call** fills or clears the slot of its address. -/
theorem filled_call (sized : env.pton.Sized) (arranges : Arranges env) (holds : Filled types filled)
    (call : AddrCall) (visible : call.Visible env.pton filled) :
    Filled (call.apply env types) fun s => call.mark env.pton s (filled s) := by
  obtain ⟨contents, holds, same⟩ := holds
  cases call with
  | add ifname a =>
    have size := sized_ofText sized a
    simp only [AddrCall.apply, addLocal, AddrCall.mark]
    cases here : slotOf env.pton ifname a with
    | none =>
      rw [add_slotless here]
      exact ⟨contents, holds, fun s => by simp [same]⟩
    | some s =>
      have seen := visible_of_filled same (visible s here)
      rcases holds_add holds size here seen (arranges types (Addr.ofText env.pton a) ifname)
        .atLocal with ⟨type, -, added⟩ | ⟨unchanged, there⟩
      · refine ⟨_, added, fun s' => ?_⟩
        by_cases this : s' = s
        · subst this
          simp
        · rw [Function.update_of_ne this, same]
          simp [Ne.symm this]
      · rw [unchanged]
        refine ⟨contents, holds, fun s' => ?_⟩
        by_cases this : s' = s
        · subst this
          simp [Option.isSome_iff_ne_none, there]
        · rw [same]
          simp [Ne.symm this]
  | remove ifname a =>
    have size := sized_ofText sized a
    simp only [AddrCall.apply, CaptureInstance.remove, AddrCall.mark]
    cases here : slotOf env.pton ifname a with
    | none =>
      rw [remove_slotless here]
      exact ⟨contents, holds, fun s => by simp [same]⟩
    | some s =>
      cases removable : s.removable with
      | false =>
        rw [remove_unremovable here removable]
        refine ⟨contents, holds, fun s' => ?_⟩
        by_cases this : s' = s
        · subst this
          simp [removable, same]
        · simp [Ne.symm this, same]
      | true =>
        refine ⟨_, (holds_remove holds size here removable).2, fun s' => ?_⟩
        by_cases this : s' = s
        · subst this
          simp [removable]
        · rw [Function.update_of_ne this, same]
          simp [Ne.symm this]

/-- **Calls**: what they leave in each slot. -/
theorem filled_calls (sized : env.pton.Sized) (arranges : Arranges env) {calls : List AddrCall}
    (holds : Filled types filled) (visible : AddrCall.AllVisible env.pton filled calls) :
    Filled (calls.foldl (AddrCall.apply env) types) fun s =>
      calls.foldl (AddrCall.mark env.pton s) (filled s) := by
  induction calls generalizing types filled with
  | nil => exact holds
  | cons call rest ih =>
    exact ih (filled_call sized arranges holds call visible.1) visible.2

/-- A filled slot is found. -/
theorem present_of_filled (holds : Filled types filled) {addr : Addr} (sized : Sized addr)
    {ifname : List Char} {s : AddrSlot} (here : slot addr ifname = some s) :
    types.present s = filled s := by
  obtain ⟨contents, holds, same⟩ := holds
  rw [← same]
  rcases slot_cases here with ⟨-, rfl⟩ | ⟨-, inet, -, rfl⟩ | ⟨-, -, inet6, -, rfl⟩
  · simp only [present, holds.ether]
  · have family : addr.family = .inet := eq_of_beq inet
    have length : ((bitsOf addr.sinAddr).take (entryLength 32 addr.prefixLen)).length ≤ 32 :=
      network_length addr.prefixLen (by rw [sized.1 family])
    simp only [present]
    by_cases unnamed : ifname = []
    · subst unnamed
      rw [if_pos rfl, ← stores_find (by omega) holds.ipv4Reserved length, Option.isSome_map]
    · rw [if_neg unnamed, ← stores_find (by omega) (holds.ipv4Iface ifname unnamed) length,
        Option.isSome_map]
  · have family : addr.family = .inet6 := eq_of_beq inet6
    have length : ((bitsOf addr.sin6Addr).take (entryLength 128 addr.prefixLen)).length ≤ 128 :=
      network_length addr.prefixLen (by rw [sized.2 family])
    simp only [present]
    by_cases unnamed : ifname = []
    · subst unnamed
      rw [if_pos rfl, ← stores_find (by omega) holds.ipv6Reserved length, Option.isSome_map]
    · rw [if_neg unnamed, ← stores_find (by omega) (holds.ipv6Iface ifname unnamed) length,
        Option.isSome_map]

end

/-! ## The calls of a reload -/

/-- The calls for an interface that is kept. -/
def keepCalls (old new : GlobalConfig) (ifname : List Char) : List AddrCall :=
  ((new.listed ifname).filter fun a => !(old.listed ifname).contains a).map (.add ifname) ++
    ((old.listed ifname).filter fun a => !(new.listed ifname).contains a).map (.remove ifname)

/-- Those for one that is stopped. -/
def stopCalls (gc : GlobalConfig) (ifname : List Char) : List AddrCall :=
  (gc.listed ifname).map (.remove ifname)

/-- Those for one that is started. The addresses of one that was stopped are no longer
listed. -/
def startCalls (gc : GlobalConfig) (gone : List (List Char)) (ifname : List Char) :
    List AddrCall :=
  if gone.contains ifname then [] else (gc.listed ifname).map (.add ifname)

theorem startCalls_eq (gc : GlobalConfig) (gone : List (List Char)) (ifname : List Char) :
    startCalls gc gone ifname =
      if ifname ∈ gone then [] else (gc.listed ifname).map (.add ifname) := by
  unfold startCalls
  by_cases member : ifname ∈ gone <;> simp [member]

def reloadCalls (env : ReloadInput) (self : CaptureInstance) : List AddrCall :=
  (self.remaining env).keys.flatMap (keepCalls self.gc (self.loaded env).1) ++
    ((self.stopped env).keys.flatMap (stopCalls (self.loaded env).1) ++
      (self.started env).keys.flatMap (startCalls (self.loaded env).1 (self.stopped env).keys))

/-- The loop over `ifaces_new`. -/
theorem startInterface_all (env : ReloadInput) (entries : List (List Char × NdInterface))
    (self : CaptureInstance) :
    entries.foldl (fun self e => self.startInterface env e.1 e.2) self = { self with
      interfaces := entries.foldl (fun all e => all.emplace e.1 e.2) self.interfaces
      addrTypes := (entries.map Prod.fst).foldl (fun types name =>
        (self.gc.listed name).foldl (fun types a => addLocal env types name a) types)
          self.addrTypes } := by
  induction entries generalizing self with
  | nil => rfl
  | cons e rest ih =>
    rw [List.foldl_cons, ih]
    rfl

/-- What a reload leaves when threads are created. -/
structure Went (env : ReloadInput) (before after : CaptureInstance) : Prop where
  interfaces : ∀ name, after.interfaces.get name =
    (if name ∈ (before.stopped env).keys then none else before.interfaces.get name).or
      ((before.started env).get name)
  threads : ∀ name, after.threads.get name =
    (if name ∈ (before.stopped env).keys then none else before.threads.get name).or
      ((threadGroups (before.started env) ∅ before.created).1.get name)
  addrTypes : after.addrTypes =
    (reloadCalls env before).foldl (AddrCall.apply env) before.addrTypes

theorem went {env : ReloadInput} {self : CaptureInstance}
    (loads : (self.loaded env).2 = some true)
    (returned : (reloadCaptureThreads env self).2 = some true) :
    Went env self (reloadCaptureThreads env self).1 := by
  have reload := (reload_eq loads).trans (replaceThreads_eq ..)
  have created : ¬ Uncreated env (self.started env) := by
    intro thrown
    rw [if_pos thrown] at reload
    rw [reload] at returned
    cases returned
  rw [if_neg created] at reload
  have deleted := @deleted_names env _ (self.stopped env).keys_nodup { self with
    gc := (self.loaded env).1
    addrTypes := self.keptTypes env }
  simp only [startInterface_all] at reload
  rw [reload]
  refine ⟨fun name => ?_, fun name => ?_, ?_⟩
  · simp only [OrderedMap.get_foldl_emplace, deleted.interfaces]
  · simp only [OrderedMap.get_foldl_emplace, deleted.threads]
  · simp only [deleted.addrTypes, deleted.listed]
    unfold reloadCalls
    rw [List.foldl_append, List.foldl_append, List.foldl_flatMap, List.foldl_flatMap,
      List.foldl_flatMap]
    have kept : (self.remaining env).keys.foldl (fun types name =>
        (keepCalls self.gc (self.loaded env).1 name).foldl (AddrCall.apply env) types)
          self.addrTypes = self.keptTypes env := by
      unfold keptTypes keepInterface keepCalls
      simp only [List.foldl_append, List.foldl_map]
      rfl
    have stop (types : NdAddrType) (name : List Char) :
        (stopCalls (self.loaded env).1 name).foldl (AddrCall.apply env) types =
          ((self.loaded env).1.listed name).foldl (fun types a => remove env types name a) types :=
      List.foldl_map ..
    have start (types : NdAddrType) (name : List Char) :
        (startCalls (self.loaded env).1 (self.stopped env).keys name).foldl (AddrCall.apply env)
            types =
          (if name ∈ (self.stopped env).keys then [] else (self.loaded env).1.listed name).foldl
            (fun types a => addLocal env types name a) types := by
      rw [startCalls_eq]
      split
      · rfl
      · exact List.foldl_map ..
    simp only [kept, stop, start]
    rfl

/-! ## One slot -/

/-- An address of the list has this slot. -/
def HasSlot (pton : Pton) (ifname : List Char) (addrs : List (List Char)) (s : AddrSlot) : Prop :=
  ∃ a ∈ addrs, slotOf pton ifname a = some s

instance (pton : Pton) (ifname : List Char) (addrs : List (List Char)) (s : AddrSlot) :
    Decidable (HasSlot pton ifname addrs s) :=
  inferInstanceAs (Decidable (∃ a ∈ addrs, slotOf pton ifname a = some s))

section
variable {pton : Pton} {s : AddrSlot}

/-- Calls for other slots. -/
theorem mark_others {calls : List AddrCall} (filled : Bool)
    (others : ∀ call ∈ calls, ∀ filled, AddrCall.mark pton s filled call = filled) :
    calls.foldl (AddrCall.mark pton s) filled = filled := by
  induction calls with
  | nil => rfl
  | cons call rest ih =>
    rw [List.foldl_cons, others call (List.mem_cons_self ..)]
    exact ih fun call member => others call (List.mem_cons_of_mem _ member)

/-- Only the calls for one interface count. -/
theorem mark_flatMap {names : List (List Char)} (distinct : names.Nodup)
    {calls : List Char → List AddrCall} {name : List Char}
    (others : ∀ other ≠ name, ∀ call ∈ calls other, ∀ filled,
      AddrCall.mark pton s filled call = filled) (filled : Bool) :
    (names.flatMap calls).foldl (AddrCall.mark pton s) filled =
      if name ∈ names then (calls name).foldl (AddrCall.mark pton s) filled else filled := by
  induction names generalizing filled with
  | nil => rfl
  | cons first rest ih =>
    obtain ⟨new, distinct⟩ := List.nodup_cons.mp distinct
    rw [List.flatMap_cons, List.foldl_append, ih distinct]
    by_cases same : name = first
    · subst same
      rw [if_neg new, if_pos (List.mem_cons_self ..)]
    · rw [mark_others filled (others first (Ne.symm same))]
      simp [same]

theorem hasSlot_cons (ifname a : List Char) (rest : List (List Char)) :
    decide (HasSlot pton ifname (a :: rest) s) =
      (decide (slotOf pton ifname a = some s) || decide (HasSlot pton ifname rest s)) := by
  rw [Bool.eq_iff_iff, Bool.or_eq_true, decide_eq_true_iff, decide_eq_true_iff, decide_eq_true_iff]
  simp only [HasSlot, List.mem_cons, exists_eq_or_imp]

theorem mark_adds (ifname : List Char) (addrs : List (List Char)) (filled : Bool) :
    (addrs.map (.add ifname)).foldl (AddrCall.mark pton s) filled =
      (filled || decide (HasSlot pton ifname addrs s)) := by
  induction addrs generalizing filled with
  | nil => simp [HasSlot]
  | cons a rest ih =>
    rw [List.map_cons, List.foldl_cons, ih, AddrCall.mark, Bool.or_assoc, hasSlot_cons]

theorem mark_removes (ifname : List Char) (addrs : List (List Char)) (filled : Bool) :
    (addrs.map (.remove ifname)).foldl (AddrCall.mark pton s) filled =
      (filled && !(s.removable && decide (HasSlot pton ifname addrs s))) := by
  induction addrs generalizing filled with
  | nil => simp [HasSlot]
  | cons a rest ih =>
    rw [List.map_cons, List.foldl_cons, ih, AddrCall.mark, Bool.and_assoc, hasSlot_cons]
    cases s.removable <;> simp

end

/-! ## A reload that succeeds -/

/-- The addresses listed for an interface before a reload and in what it loads. -/
def bothListed (env : ReloadInput) (self : CaptureInstance) (name : List Char) :
    List (List Char) := self.gc.listed name ++ (self.loaded env).1.listed name

/-- An instance that captures: there are threads for the interfaces of a supported type. -/
def Running (self : CaptureInstance) : Prop :=
  ∀ name, (self.threads.get name).isSome ↔
    ∃ iface, self.interfaces.get name = some iface ∧ iface.instances ≠ 0

/-- The tables match the configuration before the reload, no hardware address is listed for
two interfaces, and the radix trees store what is added where it belongs. -/
structure Matched (env : ReloadInput) (before : CaptureInstance) (filled : AddrSlot → Bool) :
    Prop where
  holds : Filled before.addrTypes filled
  listed : ∀ name s, HasSlot env.pton name (bothListed env before name) s →
    (filled s = true ↔ HasSlot env.pton name (before.gc.listed name) s)
  apart : ∀ name other mac, other ≠ name →
    HasSlot env.pton name (bothListed env before name) (.ether mac) →
    ¬ HasSlot env.pton other (bothListed env before other) (.ether mac)
  visible : AddrCall.AllVisible env.pton filled (reloadCalls env before)

/-- The addresses that the new configuration lists for an interface. -/
def newlyListed (env : ReloadInput) (self : CaptureInstance) (name : List Char) :
    List (List Char) :=
  if ((self.configured env).get name).isSome then (self.loaded env).1.listed name else []

/-- What a reload should leave: the interfaces that are configured, with threads for those of
a supported type, the old ones for those that are kept, and of the addresses listed before and
now exactly those listed now. -/
structure Settled (env : ReloadInput) (before after : CaptureInstance) : Prop where
  interfaces : ∀ name,
    (after.interfaces.get name).isSome ↔ ((before.configured env).get name).isSome
  threads : ∀ name, (after.threads.get name).isSome ↔
    ∃ iface, (before.configured env).get name = some iface ∧ iface.instances ≠ 0
  kept : ∀ name ∈ (before.remaining env).keys, after.threads.get name = before.threads.get name
  addresses : ∀ name, ((before.interfaces.get name).isSome ∨
      ((before.configured env).get name).isSome) →
    ∀ s, HasSlot env.pton name (bothListed env before name) s →
      (after.addrTypes.present s = true ↔ HasSlot env.pton name (newlyListed env before name) s)

/-- The configurations between which a reload updates the addresses as it should. -/
structure Follows (env : ReloadInput) (before : CaptureInstance) : Prop where
  /-- An address that is dropped can be removed, exactly if its network is not listed in
  another way. -/
  kept : ∀ name ∈ (before.remaining env).keys, ∀ a ∈ before.gc.listed name,
    a ∉ (before.loaded env).1.listed name → ∀ s, slotOf env.pton name a = some s →
      (s.removable = true ↔ ¬ HasSlot env.pton name ((before.loaded env).1.listed name) s)
  /-- The same networks were listed before, and none can be removed. -/
  changed : ∀ name ∈ (before.stopped env).keys, name ∈ (before.started env).keys → ∀ s,
    (HasSlot env.pton name ((before.loaded env).1.listed name) s →
      HasSlot env.pton name (before.gc.listed name) s ∧ s.removable = false) ∧
    (HasSlot env.pton name (before.gc.listed name) s →
      HasSlot env.pton name ((before.loaded env).1.listed name) s)
  /-- What was listed is still listed, though not configured, and can be removed. -/
  deleted : ∀ name ∈ (before.stopped env).keys, name ∉ (before.started env).keys → ∀ s,
    HasSlot env.pton name (before.gc.listed name) s →
      s.removable = true ∧ HasSlot env.pton name ((before.loaded env).1.listed name) s
  /-- What was listed, though not configured, is still listed. -/
  added : ∀ name ∈ (before.started env).keys, name ∉ (before.stopped env).keys → ∀ s,
    HasSlot env.pton name (before.gc.listed name) s →
      HasSlot env.pton name ((before.loaded env).1.listed name) s

section
variable {env : ReloadInput} {self : CaptureInstance} {filled : AddrSlot → Bool}

theorem hasSlot_append {pton : Pton} {ifname : List Char} {addrs addrs' : List (List Char)}
    {s : AddrSlot} : HasSlot pton ifname (addrs ++ addrs') s ↔
      HasSlot pton ifname addrs s ∨ HasSlot pton ifname addrs' s := by
  simp only [HasSlot, List.mem_append, or_and_right, exists_or]

/-- The slot of a network belongs to its interface. -/
theorem slot_of_interface {pton : Pton} {ifname a : List Char} {s : AddrSlot}
    (here : slotOf pton ifname a = some s) :
    (∃ mac, s = .ether mac) ∨ (∃ network, s = .ipv4 ifname network) ∨
      ∃ network, s = .ipv6 ifname network := by
  rcases slot_cases here with ⟨-, rfl⟩ | ⟨-, -, -, rfl⟩ | ⟨-, -, -, -, rfl⟩
  · exact .inl ⟨_, rfl⟩
  · exact .inr (.inl ⟨_, rfl⟩)
  · exact .inr (.inr ⟨_, rfl⟩)

/-- Interfaces do not share slots. -/
theorem slots_apart (matched : Matched env self filled) {name other : List Char}
    (different : other ≠ name) {s : AddrSlot}
    (here : HasSlot env.pton name (bothListed env self name) s) :
    ¬ HasSlot env.pton other (bothListed env self other) s := by
  intro there
  have ⟨a, _, slot⟩ := here
  have ⟨a', _, slot'⟩ := there
  rcases slot_of_interface slot with ⟨mac, rfl⟩ | ⟨network, rfl⟩ | ⟨network, rfl⟩
  · exact matched.apart name other mac different here there
  · rcases slot_of_interface slot' with ⟨_, is⟩ | ⟨_, is⟩ | ⟨_, is⟩
    · cases is
    · exact different (AddrSlot.ipv4.inj is).1.symm
    · cases is
  · rcases slot_of_interface slot' with ⟨_, is⟩ | ⟨_, is⟩ | ⟨_, is⟩
    · cases is
    · cases is
    · exact different (AddrSlot.ipv6.inj is).1.symm

/-- A call for an address without this slot. -/
theorem mark_of_no_slot {pton : Pton} {s : AddrSlot} {name : List Char} {addrs : List (List Char)}
    (none : ¬ HasSlot pton name addrs s) {a : List Char} (member : a ∈ addrs) (filled : Bool) :
    AddrCall.mark pton s filled (.add name a) = filled ∧
      AddrCall.mark pton s filled (.remove name a) = filled := by
  have other : slotOf pton name a ≠ some s := fun same => none ⟨a, member, same⟩
  simp [AddrCall.mark, other]

/-- What a reload leaves in a slot of an interface. -/
theorem reload_mark (matched : Matched env self filled) {name : List Char} {s : AddrSlot}
    (here : HasSlot env.pton name (bothListed env self name) s) :
    let mark := AddrCall.mark env.pton s
    let gc := (self.loaded env).1
    let kept := if name ∈ (self.remaining env).keys then
      (keepCalls self.gc gc name).foldl mark (filled s) else filled s
    let stopped := if name ∈ (self.stopped env).keys then
      (stopCalls gc name).foldl mark kept else kept
    (reloadCalls env self).foldl mark (filled s) =
      if name ∈ (self.started env).keys then
        (startCalls gc (self.stopped env).keys name).foldl mark stopped else stopped := by
  have none (other : List Char) (different : other ≠ name) :=
    slots_apart matched different here
  have inside {a : List Char} {other : List Char} (member : a ∈ (self.loaded env).1.listed other) :
      a ∈ bothListed env self other := List.mem_append_right _ member
  intro mark gc kept stopped
  unfold reloadCalls
  rw [List.foldl_append, List.foldl_append, mark_flatMap (self.remaining env).keys_nodup ?_,
    mark_flatMap (self.stopped env).keys_nodup ?_, mark_flatMap (self.started env).keys_nodup ?_]
  · intro other different call member filled
    rw [startCalls_eq] at member
    split at member
    · cases member
    · obtain ⟨a, listed, rfl⟩ := List.mem_map.mp member
      exact (mark_of_no_slot (none other different) (inside listed) filled).1
  · intro other different call member filled
    obtain ⟨a, listed, rfl⟩ := List.mem_map.mp member
    exact (mark_of_no_slot (none other different) (inside listed) filled).2
  · intro other different call member filled
    rcases List.mem_append.mp member with add | remove
    · obtain ⟨a, new, rfl⟩ := List.mem_map.mp add
      exact (mark_of_no_slot (none other different) (inside (List.mem_filter.mp new).1) filled).1
    · obtain ⟨a, dropped, rfl⟩ := List.mem_map.mp remove
      exact (mark_of_no_slot (none other different)
        (List.mem_append_left _ (List.mem_filter.mp dropped).1) filled).2

theorem mem_remaining {name : List Char} : name ∈ (self.remaining env).keys ↔
    ((self.configured env).get name).isSome ∧
      kept self.interfaces (self.configured env) name = true := by
  rw [OrderedMap.mem_keys, remaining, OrderedMap.get_filter_key _ fun name =>
    kept self.interfaces (self.configured env) name]
  cases kept self.interfaces (self.configured env) name <;> simp

theorem mem_started {name : List Char} : name ∈ (self.started env).keys ↔
    ((self.configured env).get name).isSome ∧
      kept self.interfaces (self.configured env) name = false := by
  rw [OrderedMap.mem_keys, started, OrderedMap.get_filter_key _ fun name =>
    !kept self.interfaces (self.configured env) name]
  cases kept self.interfaces (self.configured env) name <;> simp

theorem mem_stopped {name : List Char} : name ∈ (self.stopped env).keys ↔
    (self.interfaces.get name).isSome ∧
      kept self.interfaces (self.configured env) name = false := by
  rw [OrderedMap.mem_keys, stopped, OrderedMap.get_filter_key _ fun name =>
    !kept self.interfaces (self.configured env) name]
  cases kept self.interfaces (self.configured env) name <;> simp

/-- The tables after a reload. -/
theorem present_after (sized : env.pton.Sized) (arranges : Arranges env)
    (matched : Matched env self filled) {after : CaptureInstance} (went : Went env self after)
    {name : List Char} {addrs : List (List Char)} {s : AddrSlot}
    (here : HasSlot env.pton name addrs s) : after.addrTypes.present s =
      (reloadCalls env self).foldl (AddrCall.mark env.pton s) (filled s) := by
  obtain ⟨a, -, slot⟩ := here
  rw [went.addrTypes]
  exact present_of_filled (filled_calls sized arranges matched.holds matched.visible)
    (sized_ofText sized a) slot

/-- What is left of an interface that is kept. -/
theorem present_kept (sized : env.pton.Sized) (arranges : Arranges env)
    (matched : Matched env self filled) {after : CaptureInstance} (went : Went env self after)
    {name : List Char} (keeps : name ∈ (self.remaining env).keys) {s : AddrSlot}
    (here : HasSlot env.pton name (bothListed env self name) s) :
    after.addrTypes.present s = true ↔
      (HasSlot env.pton name (self.gc.listed name) s ∨ HasSlot env.pton name
        (((self.loaded env).1.listed name).filter (· ∉ self.gc.listed name)) s) ∧
      ¬ (s.removable = true ∧ HasSlot env.pton name
        ((self.gc.listed name).filter (· ∉ (self.loaded env).1.listed name)) s) := by
  have same := (mem_remaining.mp keeps).2
  have running : name ∉ (self.stopped env).keys := fun stops => by
    simp [(mem_stopped.mp stops).2] at same
  have old : name ∉ (self.started env).keys := fun starts => by
    simp [(mem_started.mp starts).2] at same
  have before := matched.listed name s here
  rw [present_after sized arranges matched went here, reload_mark matched here]
  simp only [keeps, running, old, ↓reduceIte, keepCalls, List.foldl_append, mark_adds,
    mark_removes]
  cases s.removable <;> simp [before]

/-- What is left of one that is stopped. -/
theorem present_stopped (sized : env.pton.Sized) (arranges : Arranges env)
    (matched : Matched env self filled) {after : CaptureInstance} (went : Went env self after)
    {name : List Char} (stops : name ∈ (self.stopped env).keys) {s : AddrSlot}
    (here : HasSlot env.pton name (bothListed env self name) s) :
    after.addrTypes.present s = true ↔ HasSlot env.pton name (self.gc.listed name) s ∧
      ¬ (s.removable = true ∧ HasSlot env.pton name ((self.loaded env).1.listed name) s) := by
  have changed := (mem_stopped.mp stops).2
  have other : name ∉ (self.remaining env).keys := fun keeps => by
    simp [(mem_remaining.mp keeps).2] at changed
  have before := matched.listed name s here
  rw [present_after sized arranges matched went here, reload_mark matched here]
  simp only [stops, other, ↓reduceIte, startCalls_eq, stopCalls, mark_removes, List.foldl_nil,
    ite_self]
  cases s.removable <;> simp [before]

/-- What is left of one that is new. -/
theorem present_started (sized : env.pton.Sized) (arranges : Arranges env)
    (matched : Matched env self filled) {after : CaptureInstance} (went : Went env self after)
    {name : List Char} (starts : name ∈ (self.started env).keys)
    (new : name ∉ (self.stopped env).keys) {s : AddrSlot}
    (here : HasSlot env.pton name (bothListed env self name) s) :
    after.addrTypes.present s = true ↔ HasSlot env.pton name (self.gc.listed name) s ∨
      HasSlot env.pton name ((self.loaded env).1.listed name) s := by
  have changed := (mem_started.mp starts).2
  have other : name ∉ (self.remaining env).keys := fun keeps => by
    simp [(mem_remaining.mp keeps).2] at changed
  have before := matched.listed name s here
  rw [present_after sized arranges matched went here, reload_mark matched here]
  simp only [starts, new, other, ↓reduceIte, startCalls_eq, mark_adds]
  simp [before]

/-- The addresses are brought up to date in exactly those configurations. -/
theorem addresses_iff (sized : env.pton.Sized) (arranges : Arranges env)
    (matched : Matched env self filled) {after : CaptureInstance} (went : Went env self after) :
    (∀ name, ((self.interfaces.get name).isSome ∨ ((self.configured env).get name).isSome) →
      ∀ s, HasSlot env.pton name (bothListed env self name) s →
        (after.addrTypes.present s = true ↔ HasSlot env.pton name (newlyListed env self name) s)) ↔
      Follows env self := by
  have new {name : List Char} {s : AddrSlot}
      (is : HasSlot env.pton name ((self.loaded env).1.listed name) s) :
      HasSlot env.pton name (bothListed env self name) s := hasSlot_append.mpr (.inr is)
  have old {name : List Char} {s : AddrSlot} (is : HasSlot env.pton name (self.gc.listed name) s) :
      HasSlot env.pton name (bothListed env self name) s := hasSlot_append.mpr (.inl is)
  have configured {name : List Char} (is : ((self.configured env).get name).isSome) :
      newlyListed env self name = (self.loaded env).1.listed name := if_pos is
  have unconfigured {name : List Char} (stops : name ∈ (self.stopped env).keys)
      (gone : name ∉ (self.started env).keys) : newlyListed env self name = [] :=
    if_neg fun there => gone (mem_started.mpr ⟨there, (mem_stopped.mp stops).2⟩)
  constructor
  · intro all
    refine ⟨fun name keeps a listed dropped s slot => ?_, fun name stops starts s => ?_,
      fun name stops gone s was => ?_, fun name starts fresh s was => ?_⟩
    · have there := (mem_remaining.mp keeps).1
      have here := old ⟨a, listed, slot⟩
      have drops : HasSlot env.pton name
          ((self.gc.listed name).filter (· ∉ (self.loaded env).1.listed name)) s :=
        ⟨a, List.mem_filter.mpr ⟨listed, by simpa using dropped⟩, slot⟩
      have ends := all name (.inr there) s here
      rw [present_kept sized arranges matched went keeps here, configured there] at ends
      have was : HasSlot env.pton name (self.gc.listed name) s := ⟨a, listed, slot⟩
      simp only [was, drops, true_or, and_true, true_and] at ends
      rw [← ends, not_not]
    · have runs := (mem_stopped.mp stops).1
      have there := (mem_started.mp starts).1
      constructor
      · intro now
        have ends := all name (.inl runs) s (new now)
        rw [present_stopped sized arranges matched went stops (new now), configured there] at ends
        obtain ⟨was, spared⟩ := ends.mpr now
        exact ⟨was, by simpa [now] using spared⟩
      · intro was
        have ends := all name (.inl runs) s (old was)
        rw [present_stopped sized arranges matched went stops (old was), configured there] at ends
        by_contra gone
        exact gone (ends.mp ⟨was, fun both => gone both.2⟩)
    · have ends := all name (.inl (mem_stopped.mp stops).1) s (old was)
      rw [present_stopped sized arranges matched went stops (old was), unconfigured stops gone]
        at ends
      by_contra spared
      obtain ⟨a, none, -⟩ := ends.mp ⟨was, spared⟩
      cases none
    · have there := (mem_started.mp starts).1
      have ends := all name (.inr there) s (old was)
      rw [present_started sized arranges matched went starts fresh (old was), configured there]
        at ends
      exact ends.mp (.inl was)
  · intro follows name involved s here
    by_cases same : kept self.interfaces (self.configured env) name = true
    · obtain ⟨running, iface, -, there, -⟩ := kept_true same
      have there : ((self.configured env).get name).isSome := by simp [there]
      have keeps := mem_remaining.mpr ⟨there, same⟩
      rw [present_kept sized arranges matched went keeps here, configured there]
      constructor
      · rintro ⟨⟨a, listed, slot⟩ | ⟨a, added, slot⟩, spared⟩
        · by_cases still : a ∈ (self.loaded env).1.listed name
          · exact ⟨a, still, slot⟩
          · by_contra gone
            have removable := (follows.kept name keeps a listed still s slot).mpr gone
            exact spared ⟨removable, a, List.mem_filter.mpr ⟨listed, by simpa using still⟩, slot⟩
        · exact ⟨a, (List.mem_filter.mp added).1, slot⟩
      · rintro ⟨a, listed, slot⟩
        constructor
        · by_cases was : a ∈ self.gc.listed name
          · exact .inl ⟨a, was, slot⟩
          · exact .inr ⟨a, List.mem_filter.mpr ⟨listed, by simpa using was⟩, slot⟩
        · rintro ⟨removable, b, dropped, slot'⟩
          obtain ⟨was, gone⟩ := List.mem_filter.mp dropped
          exact (follows.kept name keeps b was (by simpa using gone) s slot').mp removable
            ⟨a, listed, slot⟩
    · have changed : kept self.interfaces (self.configured env) name = false := by simpa using same
      by_cases runs : (self.interfaces.get name).isSome
      · have stops := mem_stopped.mpr ⟨runs, changed⟩
        rw [present_stopped sized arranges matched went stops here]
        by_cases there : ((self.configured env).get name).isSome
        · obtain ⟨now, was⟩ := follows.changed name stops (mem_started.mpr ⟨there, changed⟩) s
          rw [configured there]
          constructor
          · exact fun both => was both.1
          · intro is
            obtain ⟨before, stays⟩ := now is
            exact ⟨before, fun both => by simp [stays] at both⟩
        · have gone : name ∉ (self.started env).keys := fun starts =>
            there (mem_started.mp starts).1
          rw [unconfigured stops gone]
          constructor
          · rintro ⟨was, spared⟩
            exact absurd (follows.deleted name stops gone s was) spared
          · rintro ⟨a, none, -⟩
            cases none
      · have there := involved.resolve_left runs
        have fresh : name ∉ (self.stopped env).keys := fun stops => runs (mem_stopped.mp stops).1
        have starts := mem_started.mpr ⟨there, changed⟩
        rw [present_started sized arranges matched went starts fresh here, configured there]
        constructor
        · rintro (was | is)
          · exact follows.added name starts fresh s was
          · exact is
        · exact .inr

/-- There are threads for the interfaces of a supported type. -/
theorem isSome_threadGroups (ifaces : NdInterfaces) (created : Nat) (name : List Char) :
    ((threadGroups ifaces ∅ created).1.get name).isSome ↔
      ∃ iface, ifaces.get name = some iface ∧ iface.instances ≠ 0 := by
  have loop (entries : List (List Char × NdInterface)) (threads : CaptureThreads) (created : Nat) :
      ((entries.foldl (fun s e =>
          if e.2.instances = 0 then (s.1, s.2)
          else (s.1.set e.1 (List.range' s.2 e.2.instances), s.2 + e.2.instances))
        (threads, created)).1.get name).isSome ↔
        (threads.get name).isSome ∨ ∃ iface, (name, iface) ∈ entries ∧ iface.instances ≠ 0 := by
    induction entries generalizing threads created with
    | nil => simp
    | cons e rest ih =>
      obtain ⟨first, iface⟩ := e
      rw [List.foldl_cons]
      by_cases unsupported : iface.instances = 0
      · simp only [unsupported, ↓reduceIte, ih, List.mem_cons, Prod.mk.injEq]
        refine or_congr_right (exists_congr fun other => ?_)
        constructor
        · exact fun both => ⟨.inr both.1, both.2⟩
        · rintro ⟨⟨-, rfl⟩ | later, supported⟩
          · exact absurd unsupported supported
          · exact ⟨later, supported⟩
      · simp only [unsupported, ↓reduceIte, ih, List.mem_cons, Prod.mk.injEq]
        by_cases same : name = first
        · subst same
          rw [OrderedMap.get_set_self]
          simp only [Option.isSome_some, true_or, true_iff]
          exact .inr ⟨iface, .inl ⟨trivial, rfl⟩, unsupported⟩
        · rw [OrderedMap.get_set_ne same]
          simp [same]
  have groups := loop ifaces.entries ∅ created
  simp only [OrderedMap.get_empty, Option.isSome_none, Bool.false_eq_true, false_or,
    OrderedMap.mem_entries] at groups
  exact groups

/-- Whether a type is supported. -/
theorem instances_eq_zero (iface : NdInterface) : iface.instances = 0 ↔
    CaptureType.type iface.captureType ∉
      [CaptureType.pcap, CaptureType.pcapOffline, CaptureType.tpv3, CaptureType.nfq] := by
  unfold NdInterface.instances
  simp only [List.mem_cons, List.not_mem_nil, or_false, not_or]
  split
  case isTrue pcap =>
    simp only [one_ne_zero, false_iff]
    tauto
  case isFalse =>
    split
    case isTrue tpv3 =>
      have some : (if iface.configTpv3.fanoutMode = .disabled ∨ iface.configTpv3.fanoutInstances < 2
          then 1 else iface.configTpv3.fanoutInstances) ≠ 0 := by
        split <;> omega
      simp only [some, false_iff]
      tauto
    case isFalse =>
      split
      case isTrue nfq =>
        have some : (if iface.configNfq.instances = 0 then 1 else iface.configNfq.instances) ≠ 0 := by
          split <;> omega
        simp only [some, false_iff]
        tauto
      case isFalse =>
        simp only [true_iff]
        tauto

theorem instances_of_same {running iface : NdInterface} (same : running.same iface = true) :
    running.instances = 0 ↔ iface.instances = 0 := by
  have types : running.captureType = iface.captureType := by
    simp only [NdInterface.same, Bool.and_eq_true, beq_iff_eq] at same
    exact same.1.1.2
  rw [instances_eq_zero, instances_eq_zero, types]

/-- **Keys.** The interfaces and their threads are those configured, and those that are
kept have their old threads. -/
theorem went_keys (running : Running self) {after : CaptureInstance} (went : Went env self after) :
    (∀ name, (after.interfaces.get name).isSome ↔ ((self.configured env).get name).isSome) ∧
      (∀ name, (after.threads.get name).isSome ↔
        ∃ iface, (self.configured env).get name = some iface ∧ iface.instances ≠ 0) ∧
      ∀ name ∈ (self.remaining env).keys, after.threads.get name = self.threads.get name := by
  have started (name : List Char) : (self.started env).get name =
      if kept self.interfaces (self.configured env) name then none
      else (self.configured env).get name := by
    rw [CaptureInstance.started, OrderedMap.get_filter_key _ fun name =>
      !kept self.interfaces (self.configured env) name]
    cases kept self.interfaces (self.configured env) name <;> rfl
  have groups (name : List Char) (fresh : (self.started env).get name = none) :
      (threadGroups (self.started env) ∅ self.created).1.get name = none := by
    by_contra some
    obtain ⟨iface, here, -⟩ := (isSome_threadGroups ..).mp (Option.isSome_iff_ne_none.mpr some)
    rw [fresh] at here
    cases here
  have stays {name : List Char} (same : kept self.interfaces (self.configured env) name = true) :
      name ∉ (self.stopped env).keys := fun stops => by
    simp [(mem_stopped.mp stops).2] at same
  refine ⟨fun name => ?_, fun name => ?_, fun name keeps => ?_⟩
  · rw [went.interfaces, started]
    by_cases same : kept self.interfaces (self.configured env) name = true
    · obtain ⟨running, iface, here, there, -⟩ := kept_true same
      rw [if_neg (stays same), if_pos same, Option.or_none, here, there]
      exact Iff.rfl
    · have changed : kept self.interfaces (self.configured env) name = false := by simpa using same
      have before : (if name ∈ (self.stopped env).keys then none
          else self.interfaces.get name) = none := by
        by_cases runs : (self.interfaces.get name).isSome
        · exact if_pos (mem_stopped.mpr ⟨runs, changed⟩)
        · rw [Option.not_isSome_iff_eq_none.mp runs, ite_self]
      rw [before, if_neg same, Option.none_or]
  · rw [went.threads]
    by_cases same : kept self.interfaces (self.configured env) name = true
    · obtain ⟨runs, iface, here, there, settings⟩ := kept_true same
      rw [if_neg (stays same), groups name (by rw [started, if_pos same]), Option.or_none,
        running name]
      simp only [here, there, Option.some.injEq, exists_eq_left']
      exact not_congr (instances_of_same settings)
    · have changed : kept self.interfaces (self.configured env) name = false := by simpa using same
      have before : (if name ∈ (self.stopped env).keys then none
          else self.threads.get name) = none := by
        by_cases runs : (self.interfaces.get name).isSome
        · exact if_pos (mem_stopped.mpr ⟨runs, changed⟩)
        · have none : self.threads.get name = none := by
            by_contra some
            obtain ⟨iface, here, -⟩ := (running name).mp (Option.isSome_iff_ne_none.mpr some)
            simp [here] at runs
          rw [none, ite_self]
      rw [before, Option.none_or, isSome_threadGroups, started, if_neg same]
  · rw [went.threads, if_neg (stays (mem_remaining.mp keeps).2),
      groups name (by rw [started, if_pos (mem_remaining.mp keeps).2]), Option.or_none]

/-- **A successful reload** leaves what it should exactly if the addresses follow. -/
theorem settled_iff (sized : env.pton.Sized) (arranges : Arranges env) (running : Running self)
    (loads : (self.loaded env).2 = some true)
    (returned : (reloadCaptureThreads env self).2 = some true)
    (matched : Matched env self filled) :
    Settled env self (reloadCaptureThreads env self).1 ↔ Follows env self := by
  have went := went loads returned
  have keys := went_keys running went
  constructor
  · exact fun settled => (addresses_iff sized arranges matched went).mp settled.addresses
  · intro follows
    exact ⟨keys.1, keys.2.1, keys.2.2, (addresses_iff sized arranges matched went).mpr follows⟩

end

/-! ## Addresses of one interface -/

/-- The texts of two addresses. -/
def hostPton : Pton where
  inet text := if text = "10.0.0.1".toList then some [10, 0, 0, 1] else none
  inet6 text := if text = "::1".toList then some (List.replicate 15 0 ++ [1]) else none

theorem hostPton_sized : hostPton.Sized := by
  refine ⟨fun text bytes read => ?_, fun text bytes read => ?_⟩
  · simp only [hostPton, Option.ite_none_right_eq_some, Option.some.injEq] at read
    rw [← read.2]
    rfl
  · simp only [hostPton, Option.ite_none_right_eq_some, Option.some.injEq] at read
    rw [← read.2]
    rfl

/-- A reload with `eth0` in this role and with these addresses. -/
def eth0With (role : String) (addrs : List String) : ReloadInput :=
  { reading [("eth0", role, addrs)] with pton := hostPton }

/-- It captures on `eth0`, which has one address. -/
def eth0Host : CaptureInstance :=
  (reloadCaptureThreads (eth0With "LAN" ["10.0.0.1"]) {}).1

def hostSlot : AddrSlot := .ipv4 "eth0".toList (bitsOf [10, 0, 0, 1])

def loopbackSlot : AddrSlot := .ipv6 "eth0".toList (bitsOf (List.replicate 15 0 ++ [1]))

/-- A reload without interfaces. -/
def without : ReloadInput := { reading [] with pton := hostPton }

/-- The address of a deleted interface stays, and one that a changed interface now has is
missing. -/
theorem addresses_stale :
    (eth0Host.addrTypes.present hostSlot = true ∧ eth0Host.threads.keys = ["eth0".toList]) ∧
    ((eth0Host.loaded without).2 = some true ∧
      (reloadCaptureThreads without eth0Host).2 = some true ∧
      ¬ Settled without eth0Host (reloadCaptureThreads without eth0Host).1) ∧
    (eth0Host.loaded (eth0With "WAN" ["10.0.0.1", "::1"])).2 = some true ∧
      (reloadCaptureThreads (eth0With "WAN" ["10.0.0.1", "::1"]) eth0Host).2 = some true ∧
      ¬ Settled (eth0With "WAN" ["10.0.0.1", "::1"]) eth0Host
        (reloadCaptureThreads (eth0With "WAN" ["10.0.0.1", "::1"]) eth0Host).1 := by
  have runs : (eth0Host.interfaces.get "eth0".toList).isSome := by decide +kernel
  have stays : (reloadCaptureThreads without eth0Host).1.addrTypes.present hostSlot = true := by
    decide +kernel
  have missing : (reloadCaptureThreads (eth0With "WAN" ["10.0.0.1", "::1"])
      eth0Host).1.addrTypes.present loopbackSlot = false := by decide +kernel
  refine ⟨?_, ⟨?_, ?_, fun settled => ?_⟩, ?_, ?_, fun settled => ?_⟩
  · decide +kernel
  · decide +kernel
  · decide +kernel
  · have ends := settled.addresses "eth0".toList (.inl runs) hostSlot (by decide +kernel)
    have unlisted : ¬ HasSlot hostPton "eth0".toList
        (newlyListed without eth0Host "eth0".toList) hostSlot := by decide +kernel
    exact unlisted (ends.mp stays)
  · decide +kernel
  · decide +kernel
  · have ends := settled.addresses "eth0".toList (.inl runs) loopbackSlot (by decide +kernel)
    have now : HasSlot hostPton "eth0".toList
        (newlyListed (eth0With "WAN" ["10.0.0.1", "::1"]) eth0Host "eth0".toList)
        loopbackSlot := by decide +kernel
    rw [missing] at ends
    cases ends.mpr now

theorem hasSlot_singleton {pton : Pton} {ifname a : List Char} {s : AddrSlot} :
    HasSlot pton ifname [a] s ↔ slotOf pton ifname a = some s := by
  simp only [HasSlot, List.mem_singleton, exists_eq_left]

theorem listed_eq_nil {gc : GlobalConfig} {name : List Char}
    (absent : name ∉ gc.interfaceAddrs.keys) : gc.listed name = [] := by
  rw [OrderedMap.mem_keys, Option.not_isSome_iff_eq_none] at absent
  rw [GlobalConfig.listed, absent]

theorem arranges_eth0With (role : String) (addrs : List String) :
    Arranges (eth0With role addrs) := by
  intro types addr ifname inet6 _ name member
  have other : addr.isIPv4 = false := by
    have family : addr.family = .inet6 := eq_of_beq inet6
    simp [Addr.isIPv4, family]
  have order : (eth0With role addrs).arrange types addr ifname =
      ifname :: types.ipv6Iface.names := by
    simp [eth0With, reading, other]
  rwa [order]

/-- The slots that the address of `eth0` fills. -/
def eth0Filled (s : AddrSlot) : Bool :=
  AddrCall.mark hostPton s false (.add "eth0".toList "10.0.0.1".toList)

theorem hostSlot_of : slotOf hostPton "eth0".toList "10.0.0.1".toList = some hostSlot := by
  decide +kernel

theorem loopbackSlot_of : slotOf hostPton "eth0".toList "::1".toList = some loopbackSlot := by
  decide +kernel

theorem filled_eth0 : Filled eth0Host.addrTypes eth0Filled := by
  have loads : (({} : CaptureInstance).loaded (eth0With "LAN" ["10.0.0.1"])).2 = some true := by
    decide +kernel
  have returned : (reloadCaptureThreads (eth0With "LAN" ["10.0.0.1"]) {}).2 = some true := by
    decide +kernel
  have calls : reloadCalls (eth0With "LAN" ["10.0.0.1"]) {} =
      [.add "eth0".toList "10.0.0.1".toList] := by decide +kernel
  have nothing : Filled {} fun _ => false := ⟨_, holds_empty, fun _ => rfl⟩
  have visible : AddrCall.AllVisible hostPton (fun _ => false)
      [.add "eth0".toList "10.0.0.1".toList] := by
    refine ⟨fun s here => ?_, trivial⟩
    rw [hostSlot_of] at here
    cases here
    exact not_eclipsed fun _ => rfl
  have filled := @filled_calls (eth0With "LAN" ["10.0.0.1"]) _ _ hostPton_sized
    (arranges_eth0With "LAN" ["10.0.0.1"]) _ nothing visible
  rw [eth0Host, (went loads returned).addrTypes, calls]
  exact filled

/-- The loopback address is added. -/
def moreAddresses : ReloadInput := eth0With "LAN" ["10.0.0.1", "::1"]

theorem matched_eth0 : Matched moreAddresses eth0Host eth0Filled := by
  have oldNames : eth0Host.gc.interfaceAddrs.keys = ["eth0".toList] := by decide +kernel
  have newNames : (eth0Host.loaded moreAddresses).1.interfaceAddrs.keys = ["eth0".toList] := by
    decide +kernel
  have old : eth0Host.gc.listed "eth0".toList = ["10.0.0.1".toList] := by decide +kernel
  have both : bothListed moreAddresses eth0Host "eth0".toList =
      ["10.0.0.1".toList, "10.0.0.1".toList, "::1".toList] := by decide +kernel
  have only {name : List Char} (other : name ≠ "eth0".toList) :
      bothListed moreAddresses eth0Host name = [] := by
    rw [bothListed, listed_eq_nil (by simpa [oldNames] using other),
      listed_eq_nil (by simpa [newNames] using other)]
    rfl
  have calls : reloadCalls moreAddresses eth0Host = [.add "eth0".toList "::1".toList] := by
    decide +kernel
  refine ⟨filled_eth0, fun name s here => ?_, fun name other mac different here => ?_, ?_⟩
  · by_cases same : name = "eth0".toList
    · subst same
      rw [old, eth0Filled, AddrCall.mark, Bool.false_or, decide_eq_true_iff]
      exact ⟨fun here => ⟨_, List.mem_singleton_self _, here⟩, hasSlot_singleton.mp⟩
    · rw [only same] at here
      obtain ⟨a, none, -⟩ := here
      cases none
  · obtain ⟨a, member, slot⟩ := here
    by_cases same : name = "eth0".toList
    · subst same
      rw [only different]
      rintro ⟨a, none, -⟩
      cases none
    · rw [only same] at member
      cases member
  · rw [calls]
    refine ⟨fun s here => ?_, trivial⟩
    have is : s = loopbackSlot := Option.some.inj (here.symm.trans loopbackSlot_of)
    subst is
    refine not_eclipsed fun rest => ?_
    have empty : eth0Filled (.ipv6 "eth0".toList (bitsOf (List.replicate 15 0 ++ [1]) ++ rest)) =
        false := by
      rw [eth0Filled, AddrCall.mark, hostSlot_of]
      rfl
    exact if_neg (Bool.eq_false_iff.mp empty)

theorem running_eth0 : Running eth0Host := by
  have names : eth0Host.threads.keys = eth0Host.interfaces.keys := by decide +kernel
  have capture : ∀ entry ∈ eth0Host.interfaces.entries, entry.2.instances ≠ 0 := by decide +kernel
  intro name
  rw [← OrderedMap.mem_keys, names, OrderedMap.mem_keys, Option.isSome_iff_exists]
  constructor
  · rintro ⟨iface, here⟩
    exact ⟨iface, here, capture (name, iface) (OrderedMap.mem_entries.mpr here)⟩
  · rintro ⟨iface, here, -⟩
    exact ⟨iface, here⟩

/-- An interface that is kept gets one more address. -/
theorem loopback_added : Settled moreAddresses eth0Host
    (reloadCaptureThreads moreAddresses eth0Host).1 := by
  have loads : (eth0Host.loaded moreAddresses).2 = some true := by decide +kernel
  have returned : (reloadCaptureThreads moreAddresses eth0Host).2 = some true := by decide +kernel
  have names : (eth0Host.remaining moreAddresses).keys = ["eth0".toList] := by decide +kernel
  have nothing : (eth0Host.stopped moreAddresses).keys = [] ∧
      (eth0Host.started moreAddresses).keys = [] := by decide +kernel
  apply (@settled_iff moreAddresses _ _ hostPton_sized
    (arranges_eth0With "LAN" ["10.0.0.1", "::1"]) running_eth0 loads returned matched_eth0).mpr
  refine ⟨fun name keeps a listed dropped => ?_, fun name stops => ?_, fun name stops => ?_,
    fun name starts => ?_⟩
  · rw [names, List.mem_singleton] at keeps
    subst keeps
    have still : ∀ a ∈ eth0Host.gc.listed "eth0".toList,
        a ∈ (eth0Host.loaded moreAddresses).1.listed "eth0".toList := by decide +kernel
    exact absurd (still a listed) dropped
  · simp [nothing.1] at stops
  · simp [nothing.1] at stops
  · simp [nothing.2] at starts

end CaptureInstance
end NetifyAgent
