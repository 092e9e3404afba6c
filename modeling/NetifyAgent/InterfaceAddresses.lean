import NetifyAgent.AddressRemoval

/-! `ndNetlink::AddRemoveAddress`: all attributes of a message write to one address and
one type, and the tables are changed once, behind the loop. Of the local address and
the broadcast address of a message the last one is kept, with the type of either. -/
namespace NetifyAgent.InterfaceAddresses
open NdAddrType RadixNetworkEntry RadixNetworks RadixKeys RadixTable NdAddrOrder AddressRemoval

/-! ## A message -/

/-- `rta_type`. -/
inductive RtaType where
  | ifaAddress
  | ifaLocal
  | ifaBroadcast
  | other (code : Nat)
  deriving DecidableEq, Repr

/-- `rtattr`, with `RTA_DATA`. -/
structure Rtattr where
  rtaType : RtaType
  rtaData : List UInt8
  deriving DecidableEq, Repr

/-- A message of `RTM_NEWADDR` or `RTM_DELADDR`: `ifaddrmsg`, the name that
`if_indextoname` gives its `ifa_index`, and the attributes. -/
structure AddrMessage where
  ifaFamily : Family
  ifname : List Char
  attributes : List Rtattr
  deriving DecidableEq, Repr

/-- `CopyAddress` with the default prefix. -/
def copyAddress (family : Family) (dst : Addr) (src : List UInt8) : Addr :=
  match family with
  | .inet => dst.createIn src
  | .inet6 => dst.createIn6 src
  | _ => dst

/-- A turn of the loop: what `addr` and `type` are after an attribute. -/
def readAttribute (family : Family) (read : Addr × AddrType) (rta : Rtattr) : Addr × AddrType :=
  match rta.rtaType with
  | .ifaAddress | .ifaLocal => (copyAddress family read.1 rta.rtaData, read.2)
  | .ifaBroadcast => (copyAddress family read.1 rta.rtaData, .atBroadcast)
  | .other _ => read

/-- `addr` and `type` behind the loop. -/
def readMessage (message : AddrMessage) : Addr × AddrType :=
  message.attributes.foldl (readAttribute message.ifaFamily) ({}, .atLocal)

/-- `AddRemoveAddress` and what it returns. The argument `order` is that of `AddAddress`. -/
def addRemoveAddress (types : NdAddrType) (order : List (List Char)) (message : AddrMessage)
    (add : Bool) : NdAddrType × Bool :=
  let read := readMessage message
  if read.1.isValid ∧ message.ifname ≠ [] then
    if add then types.addAddress order read.2 read.1 message.ifname
    else types.removeAddress read.1 message.ifname
  else (types, false)

namespace AddrMessage

/-- An attribute that the loop reads. -/
def carries (rta : Rtattr) : Bool :=
  rta.rtaType = .ifaAddress ∨ rta.rtaType = .ifaLocal ∨ rta.rtaType = .ifaBroadcast

/-- What the first attribute of a type carries. -/
def carried (message : AddrMessage) (rtaType : RtaType) : Option (List UInt8) :=
  (message.attributes.find? (·.rtaType = rtaType)).map Rtattr.rtaData

/-- `IFA_LOCAL` when present, else `IFA_ADDRESS`. -/
def localAddress (message : AddrMessage) : Option (List UInt8) :=
  (message.carried .ifaLocal).or (message.carried .ifaAddress)

def broadcast (message : AddrMessage) : Option (List UInt8) := message.carried .ifaBroadcast

/-- The address that the loop reads last. -/
def lastAddress (message : AddrMessage) : Option (List UInt8) :=
  ((message.attributes.filter carries).getLast?).map Rtattr.rtaData

/-- An IPv4 or IPv6 message of a known interface, with addresses of its family. -/
structure WellFormed (message : AddrMessage) : Prop where
  family : message.ifaFamily = .inet ∨ message.ifaFamily = .inet6
  named : message.ifname ≠ []
  sized : ∀ rta ∈ message.attributes, carries rta = true →
    rta.rtaData.length = if message.ifaFamily = .inet then 4 else 16

/-- The slot of an address of full length. -/
def slotOf (message : AddrMessage) (bytes : List UInt8) : AddrSlot :=
  if message.ifaFamily = .inet then .ipv4 message.ifname (bitsOf bytes)
  else .ipv6 message.ifname (bitsOf bytes)

end AddrMessage

/-! ## What is asked for -/

/-- The local address is kept as local, the broadcast address as broadcast, all else as
before. -/
structure Assigned (message : AddrMessage) (addr : List UInt8)
    (contents contents' : AddrSlot → Option AddrType) : Prop where
  atLocal : contents' (message.slotOf addr) = some .atLocal
  atBroadcast : ∀ bytes ∈ message.broadcast, contents' (message.slotOf bytes) = some .atBroadcast
  same : ∀ s, s ≠ message.slotOf addr → (∀ bytes ∈ message.broadcast, s ≠ message.slotOf bytes) →
    contents' s = contents s

/-- A message adds its addresses, and takes them away again if neither was there. -/
structure Meets (types : NdAddrType) (order : List (List Char)) (message : AddrMessage)
    (addr : List UInt8) : Prop where
  added : Assigned message addr (stored types) (stored (addRemoveAddress types order message true).1)
  restored : stored types (message.slotOf addr) = none →
    (∀ bytes ∈ message.broadcast, stored types (message.slotOf bytes) = none) →
      stored (addRemoveAddress (addRemoveAddress types order message true).1 order message false).1 =
        stored types

/-- Without a broadcast address the local address is read last, and it is an IPv6 address
if it is new, or both it and the one read last are kept as local already. With one the local
address is kept as local already and another one is read last, which is the broadcast
address, or both are kept as broadcast already. -/
def Settled (types : NdAddrType) (message : AddrMessage) (addr : List UInt8) : Prop :=
  ∃ last ∈ message.lastAddress,
    match message.broadcast with
    | none =>
      (last = addr ∧ (stored types (message.slotOf addr) = none → message.ifaFamily = .inet6)) ∨
        (stored types (message.slotOf addr) = some .atLocal ∧
          stored types (message.slotOf last) = some .atLocal)
    | some bytes =>
      stored types (message.slotOf addr) = some .atLocal ∧ last ≠ addr ∧
        (last = bytes ∨ (stored types (message.slotOf bytes) = some .atBroadcast ∧
          stored types (message.slotOf last) = some .atBroadcast))

/-! ## What is read -/

/-- An address of full length. -/
structure IsHost (family : Family) (bytes : List UInt8) (addr : Addr) : Prop where
  ofFamily : addr.family = family
  address : addr.getAddress = bytes
  full : addr.prefixLen = if family = .inet then 32 else 128

theorem host_copyAddress {family : Family} (known : family = .inet ∨ family = .inet6) (dst : Addr)
    (src : List UInt8) : IsHost family src (copyAddress family dst src) := by
  rcases known with rfl | rfl <;> exact ⟨rfl, rfl, rfl⟩

section
variable {message : AddrMessage} {addr last : List UInt8}

/-- The last attribute that is read leaves its address. -/
theorem read_last {family : Family} (known : family = .inet ∨ family = .inet6)
    (attributes : List Rtattr) (start : Addr × AddrType) :
    ∀ rta ∈ (attributes.filter AddrMessage.carries).getLast?,
      IsHost family rta.rtaData (attributes.foldl (readAttribute family) start).1 := by
  induction attributes using List.reverseRecOn with
  | nil =>
    intro rta read
    cases read
  | append_singleton rest rta ih =>
    rw [List.filter_append, List.foldl_append, List.foldl_cons, List.foldl_nil]
    cases kind : rta.rtaType with
    | other code =>
      have passed : [rta].filter AddrMessage.carries = [] := by simp [AddrMessage.carries, kind]
      rw [passed, List.append_nil]
      simpa only [readAttribute, kind] using ih
    | ifaAddress | ifaLocal | ifaBroadcast =>
      have taken : [rta].filter AddrMessage.carries = [rta] := by simp [AddrMessage.carries, kind]
      intro rta' read
      rw [taken, List.getLast?_append, List.getLast?_singleton] at read
      cases read
      simpa only [readAttribute, kind] using host_copyAddress known _ rta.rtaData

/-- Without one the address stays. -/
theorem read_none (family : Family) (attributes : List Rtattr) (start : Addr × AddrType)
    (none : attributes.filter AddrMessage.carries = []) :
    (attributes.foldl (readAttribute family) start).1 = start.1 := by
  induction attributes generalizing start with
  | nil => rfl
  | cons rta rest ih =>
    have passed := List.filter_eq_nil_iff.mp none
    have here := passed rta (List.mem_cons_self ..)
    have below := List.filter_eq_nil_iff.mpr fun rta' member =>
      passed rta' (List.mem_cons_of_mem _ member)
    rw [List.foldl_cons, ih _ below]
    cases kind : rta.rtaType <;> simp_all [readAttribute, AddrMessage.carries]

/-- The type is that of the broadcast address, if there is one anywhere. -/
theorem read_type (family : Family) (attributes : List Rtattr) (start : Addr × AddrType) :
    (attributes.foldl (readAttribute family) start).2 =
      if (attributes.find? (·.rtaType = .ifaBroadcast)).isSome then .atBroadcast else start.2 := by
  induction attributes using List.reverseRecOn with
  | nil => rfl
  | append_singleton rest rta ih =>
    rw [List.foldl_append, List.foldl_cons, List.foldl_nil, List.find?_append, Option.isSome_or]
    cases kind : rta.rtaType <;> simp [readAttribute, kind, ih]

theorem readMessage_type : (readMessage message).2 =
    if message.broadcast.isSome then .atBroadcast else .atLocal := by
  rw [readMessage, read_type, AddrMessage.broadcast, AddrMessage.carried, Option.isSome_map]

theorem readMessage_host (wellFormed : message.WellFormed) (read : message.lastAddress = some last) :
    IsHost message.ifaFamily last (readMessage message).1 := by
  obtain ⟨rta, found, rfl⟩ := Option.map_eq_some_iff.mp read
  exact read_last wellFormed.family _ _ rta found

theorem last_sized (wellFormed : message.WellFormed) (read : message.lastAddress = some last) :
    last.length = if message.ifaFamily = .inet then 4 else 16 := by
  obtain ⟨rta, found, rfl⟩ := Option.map_eq_some_iff.mp read
  obtain ⟨member, carries⟩ := List.mem_filter.mp (List.mem_of_getLast? found)
  exact wellFormed.sized rta member carries

/-- A message with a local address has a last one. -/
theorem last_of_local (here : message.localAddress = some addr) :
    ∃ last, message.lastAddress = some last := by
  have found : ∃ rta ∈ message.attributes, AddrMessage.carries rta = true := by
    rcases Option.or_eq_some_iff.mp here with present | ⟨-, present⟩
    all_goals
      obtain ⟨rta, found, -⟩ := Option.map_eq_some_iff.mp present
      have kind := List.find?_some found
      exact ⟨rta, List.mem_of_find?_eq_some found, by simp_all [AddrMessage.carries]⟩
  obtain ⟨rta, member, carries⟩ := found
  have nonempty : message.attributes.filter AddrMessage.carries ≠ [] :=
    List.ne_nil_of_mem (List.mem_filter.mpr ⟨member, carries⟩)
  exact ⟨_, congrArg (Option.map Rtattr.rtaData) (List.getLast?_eq_some_getLast nonempty)⟩

/-- Addresses with the same slot are one. -/
theorem slotOf_injective {a b : List UInt8} (same : message.slotOf a = message.slotOf b) : a = b := by
  unfold AddrMessage.slotOf at same
  split at same
  all_goals
    injection same with _ bits
    exact bitsOf_injective bits

end

/-! ## What is kept -/

section
variable {types : NdAddrType} {message : AddrMessage} {order : List (List Char)} {addr : Addr}
  {bytes : List UInt8}

/-- Nothing lies inside a network of full length. -/
theorem visible_full {N : Nat} {T : Type} {tree : RadixTree N T} {contents : List Bool → Option T}
    (stores : Stores tree contents) {bits : List Bool} (full : bits.length = N) :
    ¬ RadixInsert.Eclipsed fun rest => contents (bits ++ rest) := by
  have long {rest : List Bool} (kept : contents (bits ++ rest) ≠ none) : rest = [] := by
    have short := stores_short stores kept
    rw [List.length_append, full] at short
    exact List.length_eq_zero_iff.mp (by omega)
  rintro ⟨-, m, -, kept | divided⟩
  · exact List.cons_ne_nil _ _ (long kept)
  · obtain ⟨rest, kept⟩ := divided false
    exact List.cons_ne_nil _ _ (long kept)

theorem IsHost.sized (host : IsHost message.ifaFamily bytes addr)
    (width : bytes.length = if message.ifaFamily = .inet then 4 else 16) : Sized addr := by
  have whole := host.address
  constructor
  · intro inet
    simp only [Addr.getAddress, inet] at whole
    rw [whole, width, if_pos (host.ofFamily.symm.trans inet)]
  · intro inet6
    simp only [Addr.getAddress, inet6] at whole
    rw [whole, width, if_neg]
    rw [← host.ofFamily, inet6]
    decide

theorem IsHost.slot_eq (host : IsHost message.ifaFamily bytes addr)
    (wellFormed : message.WellFormed)
    (width : bytes.length = if message.ifaFamily = .inet then 4 else 16) :
    slot addr message.ifname = some (message.slotOf bytes) := by
  have whole := host.address
  have full := host.full
  rcases wellFormed.family with inet | inet6
  · have family := host.ofFamily.trans inet
    have fits : (bitsOf bytes).length ≤ 32 := by
      rw [length_bitsOf, width, if_pos inet]
    simp only [Addr.getAddress, family] at whole
    rw [if_pos inet] at full
    simp [slot, Addr.isEthernet, Addr.isIPv4, family, full, entryLength, whole,
      List.take_of_length_le fits, AddrMessage.slotOf, inet]
  · have family := host.ofFamily.trans inet6
    have fits : (bitsOf bytes).length ≤ 128 := by
      rw [length_bitsOf, width, inet6]
      decide
    simp only [Addr.getAddress, family] at whole
    rw [inet6] at full
    simp [slot, Addr.isEthernet, Addr.isIPv4, Addr.isIPv6, family, full, entryLength, whole,
      List.take_of_length_le fits, AddrMessage.slotOf, inet6]

/-- A full address is no network, and keeps its type. -/
theorem IsHost.storedType_eq (host : IsHost message.ifaFamily bytes addr)
    (wellFormed : message.WellFormed) (type : AddrType) : storedType type addr = type := by
  have full := host.full
  have whole : addr.isNetwork = false := by
    rcases wellFormed.family with inet | inet6
    · rw [if_pos inet] at full
      simp [Addr.isNetwork, host.ofFamily.trans inet, full]
    · rw [inet6] at full
      simp [Addr.isNetwork, host.ofFamily.trans inet6, full]
  simp [storedType, whole]

/-- **Adding** a full address fills its slot with its type. -/
theorem holds_host (intact : Intact types) (wellFormed : message.WellFormed)
    (host : IsHost message.ifaFamily bytes addr)
    (width : bytes.length = if message.ifaFamily = .inet then 4 else 16)
    (arranged : message.ifname ∉ names types message.ifaFamily →
      order.Perm (message.ifname :: names types message.ifaFamily)) (type : AddrType) :
    Holds (types.addAddress order type addr message.ifname).1
      (Function.update (stored types) (message.slotOf bytes) (some type)) := by
  have sized := host.sized width
  have full := host.full
  have whole := host.address
  have kept := host.storedType_eq wellFormed type
  rcases wellFormed.family with inet | inet6
  · have family := host.ofFamily.trans inet
    simp only [Addr.getAddress, family] at whole
    rw [if_pos inet] at full
    have bits : (bitsOf bytes).length = 32 := by rw [length_bitsOf, width, if_pos inet]
    have created : create read4 addr = some (ofBits 32 (bitsOf bytes)) := by
      have isInet : addr.isIPv4 = true := by simp [Addr.isIPv4, family]
      have made := create_ipv4 isInet sized (by simp [full, entryLength])
      rwa [whole, List.take_of_length_le (by simp [bits, full, entryLength])] at made
    have stores := intact.holds.ipv4Iface message.ifname wellFormed.named
    obtain ⟨tree, assigned, stores'⟩ := stores_assign (by omega) stores
      (List.ne_nil_of_length_pos (by omega)) (by omega) (visible_full stores bits)
      (storedType type addr)
    rw [add_ipv4Iface (by simp [Addr.isEthernet, family]) family created order wellFormed.named
      assigned, AddrMessage.slotOf, if_pos inet]
    rw [kept] at stores'
    exact intact.holds.update_ipv4Iface wellFormed.named order stores'
  · have family := host.ofFamily.trans inet6
    simp only [Addr.getAddress, family] at whole
    rw [inet6] at full width arranged
    have bits : (bitsOf bytes).length = 128 := by
      rw [length_bitsOf, width]
      decide
    have created : create read6 addr = some (ofBits 128 (bitsOf bytes)) := by
      have isInet6 : addr.isIPv6 = true := by simp [Addr.isIPv6, family]
      have made := create_ipv6 isInet6 sized (by simp [full, entryLength])
      rwa [whole, List.take_of_length_le (by simp [bits, full, entryLength])] at made
    have stores := intact.holds.ipv6Iface message.ifname wellFormed.named
    obtain ⟨tree, assigned, stores'⟩ := stores_assign (by omega) stores
      (List.ne_nil_of_length_pos (by omega)) (by omega) (visible_full stores bits)
      (storedType type addr)
    rw [add_ipv6Iface (by simp [Addr.isEthernet, family]) family created order wellFormed.named
      assigned, AddrMessage.slotOf, inet6]
    rw [kept] at stores'
    exact intact.holds.update_ipv6Iface wellFormed.named
      (fun new name member => (arranged new).mem_iff.mpr member) stores'

end

/-! ## A message and its opposite -/

section
variable {types : NdAddrType} {message : AddrMessage} {order : List (List Char)}
  {addr last : List UInt8} {contents : AddrSlot → Option AddrType}

theorem slotOf_ne {a b : List UInt8} (other : a ≠ b) : message.slotOf a ≠ message.slotOf b :=
  fun same => other (slotOf_injective same)

/-- One address is kept where one is asked for. -/
theorem assigned_local_iff (alone : message.broadcast = none) :
    Assigned message addr contents
        (Function.update contents (message.slotOf last) (some .atLocal)) ↔
      last = addr ∨ (contents (message.slotOf addr) = some .atLocal ∧
        contents (message.slotOf last) = some .atLocal) := by
  have free {P : List UInt8 → Prop} : ∀ bytes ∈ message.broadcast, P bytes := by simp [alone]
  constructor
  · intro assigned
    refine or_iff_not_imp_left.mpr fun other => ?_
    have here := assigned.atLocal
    have there := assigned.same (message.slotOf last) (slotOf_ne other) free
    rw [Function.update_of_ne (slotOf_ne (Ne.symm other))] at here
    rw [Function.update_self] at there
    exact ⟨here, there.symm⟩
  · rintro (rfl | ⟨here, there⟩)
    · exact ⟨Function.update_self .., free, fun s other _ => Function.update_of_ne other ..⟩
    · rw [Function.update_eq_self_iff.mpr there.symm]
      exact ⟨here, free, fun s _ _ => rfl⟩

/-- One address is kept as broadcast where two are asked for. -/
theorem assigned_broadcast_iff {bytes : List UInt8} (present : message.broadcast = some bytes) :
    Assigned message addr contents
        (Function.update contents (message.slotOf last) (some .atBroadcast)) ↔
      contents (message.slotOf addr) = some .atLocal ∧ last ≠ addr ∧
        (last = bytes ∨ (contents (message.slotOf bytes) = some .atBroadcast ∧
          contents (message.slotOf last) = some .atBroadcast)) := by
  have only {P : List UInt8 → Prop} : (∀ bytes ∈ message.broadcast, P bytes) ↔ P bytes := by
    simp [present]
  constructor
  · intro assigned
    have here := assigned.atLocal
    have other : last ≠ addr := by
      rintro rfl
      rw [Function.update_self] at here
      exact absurd here (by decide)
    rw [Function.update_of_ne (slotOf_ne (Ne.symm other))] at here
    refine ⟨here, other, or_iff_not_imp_left.mpr fun differs => ⟨?_, ?_⟩⟩
    · have there := only.mp assigned.atBroadcast
      rwa [Function.update_of_ne (slotOf_ne (Ne.symm differs))] at there
    · have unchanged := assigned.same (message.slotOf last) (slotOf_ne other)
        (only.mpr (slotOf_ne differs))
      rw [Function.update_self] at unchanged
      exact unchanged.symm
  · rintro ⟨here, other, rfl | ⟨there, kept⟩⟩
    · refine ⟨?_, only.mpr (Function.update_self ..), fun s _ differs => ?_⟩
      · rwa [Function.update_of_ne (slotOf_ne (Ne.symm other))]
      · exact Function.update_of_ne (differs last present) ..
    · rw [Function.update_eq_self_iff.mpr kept.symm]
      exact ⟨here, only.mpr there, fun s _ _ => rfl⟩

/-- What a message calls. -/
theorem addRemove_eq (wellFormed : message.WellFormed) (read : message.lastAddress = some last)
    (types : NdAddrType) (order : List (List Char)) (add : Bool) :
    addRemoveAddress types order message add =
      if add then types.addAddress order (readMessage message).2 (readMessage message).1
        message.ifname
      else types.removeAddress (readMessage message).1 message.ifname := by
  have valid : (readMessage message).1.isValid = true := by
    unfold Addr.isValid
    rw [(readMessage_host wellFormed read).ofFamily]
    rcases wellFormed.family with inet | inet6
    · rw [inet]
      rfl
    · rw [inet6]
      rfl
  exact if_pos ⟨valid, wellFormed.named⟩

/-- The tables after a message, and after its opposite. -/
theorem stored_added (intact : Intact types) (wellFormed : message.WellFormed)
    (read : message.lastAddress = some last)
    (arranged : message.ifname ∉ names types message.ifaFamily →
      order.Perm (message.ifname :: names types message.ifaFamily)) :
    Holds (addRemoveAddress types order message true).1 (Function.update (stored types)
      (message.slotOf last) (some (readMessage message).2)) := by
  rw [addRemove_eq wellFormed read]
  exact holds_host intact wellFormed (readMessage_host wellFormed read)
    (last_sized wellFormed read) arranged (readMessage message).2

theorem restored_inet (wellFormed : message.WellFormed) (read : message.lastAddress = some last)
    (inet : message.ifaFamily = .inet) :
    (addRemoveAddress types order message false).1 = types := by
  have slotted := (readMessage_host wellFormed read).slot_eq wellFormed (last_sized wellFormed read)
  have kept : (message.slotOf last).removable = false := by
    rw [AddrMessage.slotOf, if_pos inet]
    exact decide_eq_false wellFormed.named
  rw [addRemove_eq wellFormed read]
  exact congrArg Prod.fst (remove_unremovable slotted kept)

theorem restored_inet6 (intact : Intact types) (wellFormed : message.WellFormed)
    (read : message.lastAddress = some last)
    (arranged : message.ifname ∉ names types message.ifaFamily →
      order.Perm (message.ifname :: names types message.ifaFamily))
    (inet6 : message.ifaFamily = .inet6) (absent : stored types (message.slotOf last) = none) :
    stored (addRemoveAddress (addRemoveAddress types order message true).1 order message false).1 =
      stored types := by
  have host := readMessage_host wellFormed read
  have width := last_sized wellFormed read
  have removable : (message.slotOf last).removable = true := by
    rw [AddrMessage.slotOf, inet6]
    rfl
  have removed := (holds_remove (stored_added intact wellFormed read arranged) (host.sized width)
    (host.slot_eq wellFormed width) removable).2
  rw [addRemove_eq wellFormed read]
  calc stored _ = Function.update (Function.update (stored types) (message.slotOf last) _)
        (message.slotOf last) none := stored_of_holds removed
    _ = stored types := by rw [Function.update_idem, update_absent absent]

/-- **`AddRemoveAddress`** keeps what a message says, and takes it back, exactly for the
settled messages. -/
theorem meets_iff (intact : Intact types) (wellFormed : message.WellFormed)
    (here : message.localAddress = some addr)
    (arranged : message.ifname ∉ names types message.ifaFamily →
      order.Perm (message.ifname :: names types message.ifaFamily)) :
    Meets types order message addr ↔ Settled types message addr := by
  obtain ⟨last, read⟩ := last_of_local here
  have adds := stored_of_holds (stored_added intact wellFormed read arranged)
  unfold Settled
  simp only [read, Option.mem_def, Option.some.injEq, exists_eq_left']
  cases present : message.broadcast with
  | none =>
    have kind : (readMessage message).2 = .atLocal := by simp [readMessage_type, present]
    rw [kind] at adds
    have assigned := @assigned_local_iff message addr last (stored types) present
    rw [← adds] at assigned
    constructor
    · intro meets
      rcases assigned.mp meets.added with rfl | kept
      · refine .inl ⟨rfl, fun absent => ?_⟩
        by_contra other
        have restored := meets.restored absent (by simp [present])
        rw [restored_inet wellFormed read (wellFormed.family.resolve_right other), adds] at restored
        have filled := congrFun restored (message.slotOf last)
        rw [Function.update_self, absent] at filled
        cases filled
      · exact .inr kept
    · rintro (⟨rfl, fresh⟩ | kept)
      · refine ⟨assigned.mpr (.inl rfl), fun absent _ => ?_⟩
        exact restored_inet6 intact wellFormed read arranged (fresh absent) absent
      · refine ⟨assigned.mpr (.inr kept), fun absent => ?_⟩
        rw [kept.1] at absent
        cases absent
  | some bytes =>
    have kind : (readMessage message).2 = .atBroadcast := by simp [readMessage_type, present]
    rw [kind] at adds
    have assigned := @assigned_broadcast_iff message addr last (stored types) bytes present
    rw [← adds] at assigned
    constructor
    · exact fun meets => assigned.mp meets.added
    · intro settled
      refine ⟨assigned.mpr settled, fun absent => ?_⟩
      rw [settled.1] at absent
      cases absent

/-- **One message** keeps the tables intact. -/
theorem intact_message (intact : Intact types) (wellFormed : message.WellFormed)
    (arranged : message.ifname ∉ names types message.ifaFamily →
      order.Perm (message.ifname :: names types message.ifaFamily)) (add : Bool) :
    Intact (addRemoveAddress types order message add).1 := by
  cases read : message.lastAddress with
  | none =>
    have unread : (readMessage message).1 = {} := by
      have none := List.getLast?_eq_none_iff.mp (Option.map_eq_none_iff.mp read)
      exact read_none message.ifaFamily message.attributes ({}, .atLocal) none
    have skipped : addRemoveAddress types order message add = (types, false) := by
      simp [addRemoveAddress, unread, Addr.isValid]
    rwa [skipped]
  | some last =>
    have host := readMessage_host wellFormed read
    cases add with
    | true =>
      refine .of_holds (stored_added intact wellFormed read arranged) fun family => ?_
      rw [addRemove_eq wellFormed read, if_pos rfl]
      rcases names_addAddress order (readMessage message).2 (readMessage message).1 message.ifname
        family with same | ⟨rfl, named, new, added⟩
      · rw [same]
        exact intact.named family
      · rw [host.ofFamily] at new
        rw [added, (arranged new).mem_iff, List.mem_cons, not_or]
        exact ⟨Ne.symm named, intact.named _⟩
    | false =>
      have sized := host.sized (last_sized wellFormed read)
      rw [addRemove_eq wellFormed read]
      exact intact_step intact (.removeAddress (readMessage message).1 message.ifname) sized rfl

/-- **Any messages** keep the tables intact, in whatever order new interfaces are traversed. -/
theorem intact_messages {start : NdAddrType} (intact : Intact start)
    (reached : Runs.Reaches
      (fun types (turn : List (List Char) × AddrMessage × Bool) =>
        some (addRemoveAddress types turn.1 turn.2.1 turn.2.2).1)
      (fun types turn => turn.2.1.WellFormed ∧
        (turn.2.1.ifname ∉ names types turn.2.1.ifaFamily →
          turn.1.Perm (turn.2.1.ifname :: names types turn.2.1.ifaFamily))) start types) :
    Intact types :=
  reached.invariant intact fun _ turn _ intact taken meets => by
    cases taken
    exact intact_message intact meets.1 meets.2 turn.2.2

end

/-! ## An interface with and without a broadcast address -/

/-- An IPv6 address of `eth0`. -/
def linkMessage : AddrMessage where
  ifaFamily := .inet6
  ifname := eth0
  attributes := [⟨.ifaAddress, 0xfe :: 0x80 :: List.replicate 13 0 ++ [1]⟩]

theorem linkMessage_wellFormed : linkMessage.WellFormed := ⟨by decide, by decide, by decide⟩

/-- The IPv6 address is kept as local and taken back. -/
theorem link_met : Meets (construct reservedPton) [eth0] linkMessage
    (0xfe :: 0x80 :: List.replicate 13 0 ++ [1]) := by
  have none : names (construct reservedPton) linkMessage.ifaFamily = [] := by decide +kernel
  apply (meets_iff (intact_construct reservedPton_reads) linkMessage_wellFormed rfl
    fun _ => by rw [none]; exact List.Perm.refl _).mpr
  exact ⟨_, rfl, .inl ⟨rfl, fun _ => rfl⟩⟩

/-- The address of `eth0` in a network of 256, as the kernel announces it. -/
def lanMessage : AddrMessage where
  ifaFamily := .inet
  ifname := eth0
  attributes := [⟨.ifaAddress, [192, 168, 1, 10]⟩, ⟨.ifaLocal, [192, 168, 1, 10]⟩,
    ⟨.ifaBroadcast, [192, 168, 1, 255]⟩]

/-- The broadcast address takes the place of the local one. -/
theorem lan_lost :
    lanMessage.WellFormed ∧ lanMessage.localAddress = some [192, 168, 1, 10] ∧
      stored (addRemoveAddress (construct reservedPton) [eth0] lanMessage true).1
        (lanMessage.slotOf [192, 168, 1, 10]) = none ∧
      ¬ Meets (construct reservedPton) [eth0] lanMessage [192, 168, 1, 10] := by
  have lost : stored (addRemoveAddress (construct reservedPton) [eth0] lanMessage true).1
      (lanMessage.slotOf [192, 168, 1, 10]) = none := by
    decide +kernel
  refine ⟨⟨by decide, by decide, by decide⟩, rfl, lost, fun meets => ?_⟩
  have kept := meets.added.atLocal
  rw [lost] at kept
  cases kept

end NetifyAgent.InterfaceAddresses
