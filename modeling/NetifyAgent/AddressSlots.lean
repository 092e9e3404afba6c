import NetifyAgent.NdAddrOrder

/-! The five tables of `ndAddrType` as one map. An address goes to one slot, chosen
by its family and the interface; `AddAddress` and `RemoveAddress` change that slot
and no other, where the radix trees keep what they are given. -/
namespace NetifyAgent
open RadixNetworkEntry RadixNetworks RadixKeys RadixTable RadixInsert

/-- Where an address is kept: under the text of a hardware address, or under a network in
the tables of an interface; those without a name are the reserved ones. -/
inductive AddrSlot where
  | ether (mac : List Char)
  | ipv4 (ifname : List Char) (network : List Bool)
  | ipv6 (ifname : List Char) (network : List Bool)
  deriving DecidableEq, Repr

namespace AddrSlot

/-- `RemoveAddress` asks for an empty name where it would search `ipv4_iface`. -/
def removable : AddrSlot → Bool
  | .ipv4 ifname _ => ifname = []
  | _ => true

/-- A network that the radix tree stores where it belongs. -/
def Visible {V : Type} (contents : AddrSlot → Option V) : AddrSlot → Prop
  | .ether _ => True
  | .ipv4 ifname network => ¬ Eclipsed fun rest => contents (.ipv4 ifname (network ++ rest))
  | .ipv6 ifname network => ¬ Eclipsed fun rest => contents (.ipv6 ifname (network ++ rest))

end AddrSlot

namespace NdAddrType

/-- The slot of an address. -/
def slot (addr : Addr) (ifname : List Char) : Option AddrSlot :=
  if addr.isEthernet then some (.ether addr.macString)
  else if addr.isIPv4 ∧ entryLength 32 addr.prefixLen ≤ 32 then
    some (.ipv4 ifname ((bitsOf addr.sinAddr).take (entryLength 32 addr.prefixLen)))
  else if addr.isIPv6 ∧ entryLength 128 addr.prefixLen ≤ 128 then
    some (.ipv6 ifname ((bitsOf addr.sin6Addr).take (entryLength 128 addr.prefixLen)))
  else none

/-- The tables hold the contents of the slots. -/
structure Holds (types : NdAddrType) (contents : AddrSlot → Option AddrType) : Prop where
  ether : ∀ mac, types.etherReserved mac = contents (.ether mac)
  ipv4Reserved : Stores types.ipv4Reserved fun network => contents (.ipv4 [] network)
  ipv6Reserved : Stores types.ipv6Reserved fun network => contents (.ipv6 [] network)
  ipv4Iface : ∀ ifname, ifname ≠ [] →
    Stores (types.ipv4Iface.table ifname) fun network => contents (.ipv4 ifname network)
  ipv6Iface : ∀ ifname, ifname ≠ [] →
    Stores (types.ipv6Iface.table ifname) fun network => contents (.ipv6 ifname network)
  ipv6Names : ∀ ifname, ifname ≠ [] → ifname ∉ types.ipv6Iface.names →
    ∀ network, contents (.ipv6 ifname network) = none

/-- No address is kept. -/
theorem holds_empty : Holds {} fun _ => none :=
  ⟨fun _ => rfl, stores_empty, stores_empty, fun _ _ => stores_empty, fun _ _ => stores_empty,
    fun _ _ _ _ => rfl⟩

/-! ## Changing a slot -/

section
variable {contents : AddrSlot → Option AddrType} {types : NdAddrType} {value : Option AddrType}

theorem update_ipv4 (ifname : List Char) (network : List Bool) :
    (fun network' => Function.update contents (.ipv4 ifname network) value (.ipv4 ifname network')) =
      Function.update (fun network' => contents (.ipv4 ifname network')) network value := by
  funext network'
  by_cases same : network' = network
  · subst same
    rw [Function.update_self, Function.update_self]
  · rw [Function.update_of_ne same, Function.update_of_ne (by simpa using same)]

theorem update_ipv6 (ifname : List Char) (network : List Bool) :
    (fun network' => Function.update contents (.ipv6 ifname network) value (.ipv6 ifname network')) =
      Function.update (fun network' => contents (.ipv6 ifname network')) network value := by
  funext network'
  by_cases same : network' = network
  · subst same
    rw [Function.update_self, Function.update_self]
  · rw [Function.update_of_ne same, Function.update_of_ne (by simpa using same)]

theorem Holds.update_ether (holds : Holds types contents) (mac : List Char) :
    Holds { types with etherReserved := Function.update types.etherReserved mac value }
      (Function.update contents (.ether mac) value) := by
  refine ⟨fun mac' => ?_, holds.ipv4Reserved, holds.ipv6Reserved, holds.ipv4Iface,
    holds.ipv6Iface, holds.ipv6Names⟩
  by_cases same : mac' = mac
  · subst same
    simp only [Function.update_self]
  · simp only [Function.update_of_ne same]
    rw [Function.update_of_ne (by simpa using same)]
    exact holds.ether mac'

theorem Holds.update_ipv4Reserved (holds : Holds types contents) {network : List Bool}
    {tree : RadixTree 32 AddrType} (stores : Stores tree
      (Function.update (fun network' => contents (.ipv4 [] network')) network value)) :
    Holds { types with ipv4Reserved := tree }
      (Function.update contents (.ipv4 [] network) value) := by
  refine ⟨holds.ether, ?_, holds.ipv6Reserved, fun ifname named => ?_, holds.ipv6Iface,
    holds.ipv6Names⟩
  · rw [update_ipv4]
    exact stores
  · have other (network' : List Bool) :
        Function.update contents (.ipv4 [] network) value (.ipv4 ifname network') =
          contents (.ipv4 ifname network') := Function.update_of_ne (by simp [named]) ..
    simp only [other]
    exact holds.ipv4Iface ifname named

theorem Holds.update_ipv6Reserved (holds : Holds types contents) {network : List Bool}
    {tree : RadixTree 128 AddrType} (stores : Stores tree
      (Function.update (fun network' => contents (.ipv6 [] network')) network value)) :
    Holds { types with ipv6Reserved := tree }
      (Function.update contents (.ipv6 [] network) value) := by
  have other (ifname : List Char) (named : ifname ≠ []) (network' : List Bool) :
      Function.update contents (.ipv6 [] network) value (.ipv6 ifname network') =
        contents (.ipv6 ifname network') := Function.update_of_ne (by simp [named]) ..
  refine ⟨holds.ether, holds.ipv4Reserved, ?_, holds.ipv4Iface, fun ifname named => ?_,
    fun ifname named absent network' => ?_⟩
  · rw [update_ipv6]
    exact stores
  · simp only [other ifname named]
    exact holds.ipv6Iface ifname named
  · rw [other ifname named]
    exact holds.ipv6Names ifname named absent network'

theorem Holds.update_ipv4Iface (holds : Holds types contents) {ifname : List Char}
    (named : ifname ≠ []) {network : List Bool} (order : List (List Char))
    {tree : RadixTree 32 AddrType} (stores : Stores tree
      (Function.update (fun network' => contents (.ipv4 ifname network')) network value)) :
    Holds { types with ipv4Iface := types.ipv4Iface.put order ifname tree }
      (Function.update contents (.ipv4 ifname network) value) := by
  refine ⟨holds.ether, ?_, holds.ipv6Reserved, fun ifname' named' => ?_, holds.ipv6Iface,
    holds.ipv6Names⟩
  · have other (network' : List Bool) :
        Function.update contents (.ipv4 ifname network) value (.ipv4 [] network') =
          contents (.ipv4 [] network') := Function.update_of_ne (by simp [Ne.symm named]) ..
    simp only [other]
    exact holds.ipv4Reserved
  · by_cases same : ifname' = ifname
    · subst same
      rw [update_ipv4]
      simpa [IfaceTables.put] using stores
    · have other (network' : List Bool) :
          Function.update contents (.ipv4 ifname network) value (.ipv4 ifname' network') =
            contents (.ipv4 ifname' network') := Function.update_of_ne (by simp [same]) ..
      simp only [other, IfaceTables.put, Function.update_of_ne same]
      exact holds.ipv4Iface ifname' named'

theorem Holds.update_ipv6Iface (holds : Holds types contents) {ifname : List Char}
    (named : ifname ≠ []) {network : List Bool} {order : List (List Char)}
    (listed : ifname ∉ types.ipv6Iface.names → ∀ name ∈ ifname :: types.ipv6Iface.names,
      name ∈ order)
    {tree : RadixTree 128 AddrType} (stores : Stores tree
      (Function.update (fun network' => contents (.ipv6 ifname network')) network value)) :
    Holds { types with ipv6Iface := types.ipv6Iface.put order ifname tree }
      (Function.update contents (.ipv6 ifname network) value) := by
  have other {ifname' : List Char} (apart : ifname' ≠ ifname) (network' : List Bool) :
      Function.update contents (.ipv6 ifname network) value (.ipv6 ifname' network') =
        contents (.ipv6 ifname' network') := Function.update_of_ne (by simp [apart]) ..
  refine ⟨holds.ether, holds.ipv4Reserved, ?_, holds.ipv4Iface, fun ifname' named' => ?_,
    fun ifname' named' absent network' => ?_⟩
  · simp only [other (Ne.symm named)]
    exact holds.ipv6Reserved
  · by_cases same : ifname' = ifname
    · subst same
      rw [update_ipv6]
      simpa [IfaceTables.put] using stores
    · simp only [other same, IfaceTables.put, Function.update_of_ne same]
      exact holds.ipv6Iface ifname' named'
  · -- A name that is not traversed now was not traversed before.
    have before : ifname' ≠ ifname ∧ ifname' ∉ types.ipv6Iface.names := by
      unfold IfaceTables.put at absent
      by_cases old : ifname ∈ types.ipv6Iface.names
      · rw [if_pos old] at absent
        exact ⟨fun same => absent (same ▸ old), absent⟩
      · rw [if_neg old] at absent
        exact ⟨fun same => absent (listed old _ (same ▸ List.mem_cons_self ..)),
          fun here => absent (listed old _ (List.mem_cons_of_mem _ here))⟩
    rw [other before.1]
    exact holds.ipv6Names ifname' named' before.2 network'

end

/-! ## Adding and removing -/

section
variable {contents : AddrSlot → Option AddrType} {types : NdAddrType} {addr : Addr}
  {ifname : List Char} {s : AddrSlot}

theorem create_ipv4 (inet : addr.isIPv4 = true) (sized : Sized addr)
    (fits : entryLength 32 addr.prefixLen ≤ 32) :
    create read4 addr =
      some (ofBits 32 ((bitsOf addr.sinAddr).take (entryLength 32 addr.prefixLen))) := by
  have family : addr.family = .inet := eq_of_beq inet
  have word := sized.1 family
  have valid : addr.isValid = true := by simp [Addr.isValid, family]
  exact create_bits valid (by rw [length_bitsOf, word]) fits (by omega) fun i inside =>
    read4_bits word inside

theorem create_ipv6 (inet6 : addr.isIPv6 = true) (sized : Sized addr)
    (fits : entryLength 128 addr.prefixLen ≤ 128) :
    create read6 addr =
      some (ofBits 128 ((bitsOf addr.sin6Addr).take (entryLength 128 addr.prefixLen))) := by
  have family : addr.family = .inet6 := eq_of_beq inet6
  have words := sized.2 family
  have valid : addr.isValid = true := by simp [Addr.isValid, family]
  exact create_bits valid (by rw [length_bitsOf, words]) fits (by omega) fun i inside =>
    read6_bits words inside

theorem create_none {N : Nat} {read : Addr → BitVec N}
    (unfit : ¬ entryLength N addr.prefixLen ≤ N) : create read addr = none := by
  unfold create
  split
  · exact if_pos (Nat.lt_of_not_le unfit)
  · rfl

/-- A network has at least one bit. -/
theorem network_ne_nil {N : Nat} {bytes : List UInt8} (prefixLen : Nat) (positive : 0 < N)
    (width : 8 * bytes.length = N) : (bitsOf bytes).take (entryLength N prefixLen) ≠ [] := by
  intro empty
  have length := congrArg List.length empty
  rw [List.length_take, length_bitsOf, width] at length
  unfold entryLength at length
  split at length <;> simp at length <;> omega

theorem network_length {N : Nat} {bytes : List UInt8} (prefixLen : Nat)
    (width : 8 * bytes.length = N) :
    ((bitsOf bytes).take (entryLength N prefixLen)).length ≤ N := by
  rw [List.length_take, length_bitsOf, width]
  exact Nat.min_le_right ..

/-- The slots of the three families. -/
theorem slot_cases (here : slot addr ifname = some s) :
    (addr.isEthernet = true ∧ s = .ether addr.macString) ∨
      (addr.isEthernet = false ∧ addr.isIPv4 = true ∧ entryLength 32 addr.prefixLen ≤ 32 ∧
        s = .ipv4 ifname ((bitsOf addr.sinAddr).take (entryLength 32 addr.prefixLen))) ∨
      (addr.isEthernet = false ∧ addr.isIPv4 = false ∧ addr.isIPv6 = true ∧
        entryLength 128 addr.prefixLen ≤ 128 ∧
        s = .ipv6 ifname ((bitsOf addr.sin6Addr).take (entryLength 128 addr.prefixLen))) := by
  unfold slot at here
  split at here
  case isTrue ethernet =>
    cases here
    exact .inl ⟨ethernet, rfl⟩
  case isFalse other =>
    have other : addr.isEthernet = false := by simpa using other
    split at here
    case isTrue both =>
      cases here
      exact .inr (.inl ⟨other, both.1, both.2, rfl⟩)
    case isFalse =>
      split at here
      case isTrue both =>
        cases here
        have apart : addr.isIPv4 = false := by
          have family : addr.family = .inet6 := eq_of_beq both.1
          simp [Addr.isIPv4, family]
        exact .inr (.inr ⟨other, apart, both.1, both.2, rfl⟩)
      case isFalse => cases here

theorem valid_of_slot (here : slot addr ifname = some s) : addr.isValid = true := by
  have known : addr.family ≠ .unspec := by
    intro unspec
    simp [slot, Addr.isEthernet, Addr.isIPv4, Addr.isIPv6, unspec] at here
  simpa [Addr.isValid] using known

/-- The type that is stored for an address: a local network has its own. -/
def storedType (type : AddrType) (addr : Addr) : AddrType :=
  if type = .atLocal ∧ addr.isNetwork then .atLocalNet else type

theorem add_ipv4Reserved (other : addr.isEthernet = false) (family : addr.family = .inet)
    {entry : RadixNetworkEntry 32} (created : create read4 addr = some entry)
    (order : List (List Char)) {type : AddrType} {tree : RadixTree 32 AddrType}
    (assigned : types.ipv4Reserved.assign entry (storedType type addr) = .ok tree) :
    types.addAddress order type addr [] = ({ types with ipv4Reserved := tree }, true) := by
  unfold storedType at assigned
  simp [addAddress, Addr.isValid, Addr.isIPv4, other, family, created, assigned]

theorem add_ipv6Reserved (other : addr.isEthernet = false) (family : addr.family = .inet6)
    {entry : RadixNetworkEntry 128} (created : create read6 addr = some entry)
    (order : List (List Char)) {type : AddrType} {tree : RadixTree 128 AddrType}
    (assigned : types.ipv6Reserved.assign entry (storedType type addr) = .ok tree) :
    types.addAddress order type addr [] = ({ types with ipv6Reserved := tree }, true) := by
  unfold storedType at assigned
  simp [addAddress, Addr.isValid, Addr.isIPv4, Addr.isIPv6, other, family, created, assigned]

theorem add_ipv4Iface (other : addr.isEthernet = false) (family : addr.family = .inet)
    {entry : RadixNetworkEntry 32} (created : create read4 addr = some entry)
    (order : List (List Char)) {type : AddrType} {tree : RadixTree 32 AddrType}
    (named : ifname ≠ [])
    (assigned : (types.ipv4Iface.table ifname).assign entry (storedType type addr) = .ok tree) :
    types.addAddress order type addr ifname =
      ({ types with ipv4Iface := types.ipv4Iface.put order ifname tree }, true) := by
  unfold storedType at assigned
  simp [addAddress, Addr.isValid, Addr.isIPv4, Addr.isIPv6, other, family, created, named,
    IfaceTables.assign, assigned]

theorem add_ipv6Iface (other : addr.isEthernet = false) (family : addr.family = .inet6)
    {entry : RadixNetworkEntry 128} (created : create read6 addr = some entry)
    (order : List (List Char)) {type : AddrType} {tree : RadixTree 128 AddrType}
    (named : ifname ≠ [])
    (assigned : (types.ipv6Iface.table ifname).assign entry (storedType type addr) = .ok tree) :
    types.addAddress order type addr ifname =
      ({ types with ipv6Iface := types.ipv6Iface.put order ifname tree }, true) := by
  unfold storedType at assigned
  simp [addAddress, Addr.isValid, Addr.isIPv4, Addr.isIPv6, other, family, created, named,
    IfaceTables.assign, assigned]

/-- **`AddAddress`** fills the slot of an address, unless a hardware address is there
already. -/
theorem holds_add (holds : Holds types contents) (sized : Sized addr)
    (here : slot addr ifname = some s) (visible : s.Visible contents) {order : List (List Char)}
    (listed : addr.isIPv6 = true → ifname ∉ types.ipv6Iface.names →
      ∀ name ∈ ifname :: types.ipv6Iface.names, name ∈ order) (type : AddrType) :
    (∃ type', (types.addAddress order type addr ifname).2 = true ∧
      Holds (types.addAddress order type addr ifname).1
        (Function.update contents s (some type'))) ∨
    (types.addAddress order type addr ifname = (types, false) ∧ contents s ≠ none) := by
  have valid := valid_of_slot here
  rcases slot_cases here with ⟨ethernet, rfl⟩ | ⟨other, inet, fits, rfl⟩ |
    ⟨other, apart, inet6, fits, rfl⟩
  · cases known : types.etherReserved addr.macString with
    | some old =>
      right
      rw [holds.ether] at known
      refine ⟨?_, by simp [known]⟩
      simp [addAddress, valid, ethernet, holds.ether, known]
    | none =>
      left
      have added : types.addAddress order type addr ifname =
          ({ types with etherReserved :=
              Function.update types.etherReserved addr.macString (some type) }, true) := by
        simp [addAddress, valid, ethernet, known]
      rw [added]
      exact ⟨type, rfl, holds.update_ether addr.macString⟩
  · left
    have created := create_ipv4 inet sized fits
    have family : addr.family = .inet := eq_of_beq inet
    have width : 8 * addr.sinAddr.length = 32 := by rw [sized.1 family]
    have nonempty := network_ne_nil addr.prefixLen (by omega) width
    have length := network_length addr.prefixLen width
    by_cases unnamed : ifname = []
    · subst unnamed
      obtain ⟨tree, assigned, stores⟩ := stores_assign (by omega) holds.ipv4Reserved nonempty
        length visible (storedType type addr)
      rw [add_ipv4Reserved other family created order assigned]
      exact ⟨_, rfl, holds.update_ipv4Reserved stores⟩
    · obtain ⟨tree, assigned, stores⟩ := stores_assign (by omega) (holds.ipv4Iface ifname unnamed)
        nonempty length visible (storedType type addr)
      rw [add_ipv4Iface other family created order unnamed assigned]
      exact ⟨_, rfl, holds.update_ipv4Iface unnamed order stores⟩
  · left
    have created := create_ipv6 inet6 sized fits
    have family : addr.family = .inet6 := eq_of_beq inet6
    have width : 8 * addr.sin6Addr.length = 128 := by rw [sized.2 family]
    have nonempty := network_ne_nil addr.prefixLen (by omega) width
    have length := network_length addr.prefixLen width
    by_cases unnamed : ifname = []
    · subst unnamed
      obtain ⟨tree, assigned, stores⟩ := stores_assign (by omega) holds.ipv6Reserved nonempty
        length visible (storedType type addr)
      rw [add_ipv6Reserved other family created order assigned]
      exact ⟨_, rfl, holds.update_ipv6Reserved stores⟩
    · obtain ⟨tree, assigned, stores⟩ := stores_assign (by omega) (holds.ipv6Iface ifname unnamed)
        nonempty length visible (storedType type addr)
      rw [add_ipv6Iface other family created order unnamed assigned]
      exact ⟨_, rfl, holds.update_ipv6Iface unnamed (listed inet6) stores⟩

theorem remove_ipv4Reserved (other : addr.isEthernet = false) (family : addr.family = .inet)
    {entry : RadixNetworkEntry 32} (created : create read4 addr = some entry) :
    types.removeAddress addr [] =
      ({ types with ipv4Reserved := (types.ipv4Reserved.erase entry).1 },
        (types.ipv4Reserved.erase entry).2) := by
  simp [removeAddress, Addr.isValid, Addr.isIPv4, other, family, created]

theorem remove_ipv6Reserved (other : addr.isEthernet = false) (family : addr.family = .inet6)
    {entry : RadixNetworkEntry 128} (created : create read6 addr = some entry) :
    types.removeAddress addr [] =
      ({ types with ipv6Reserved := (types.ipv6Reserved.erase entry).1 },
        (types.ipv6Reserved.erase entry).2) := by
  simp [removeAddress, Addr.isValid, Addr.isIPv4, Addr.isIPv6, other, family, created]

theorem remove_ipv6Iface (other : addr.isEthernet = false) (family : addr.family = .inet6)
    {entry : RadixNetworkEntry 128} (created : create read6 addr = some entry)
    (named : ifname ≠ []) : types.removeAddress addr ifname =
      ({ types with ipv6Iface := (types.ipv6Iface.erase ifname entry).1 },
        (types.ipv6Iface.erase ifname entry).2) := by
  simp [removeAddress, Addr.isValid, Addr.isIPv4, Addr.isIPv6, other, family, created, named]

/-- **`RemoveAddress`** clears the slot of an address, if it may. -/
theorem holds_remove (holds : Holds types contents) (sized : Sized addr)
    (here : slot addr ifname = some s) (removable : s.removable = true) :
    (types.removeAddress addr ifname).2 = (contents s).isSome ∧
      Holds (types.removeAddress addr ifname).1 (Function.update contents s none) := by
  have valid := valid_of_slot here
  rcases slot_cases here with ⟨ethernet, rfl⟩ | ⟨other, inet, fits, rfl⟩ |
    ⟨other, apart, inet6, fits, rfl⟩
  · rw [← holds.ether]
    cases known : types.etherReserved addr.macString with
    | some old =>
      have removed : types.removeAddress addr ifname = ({ types with
          etherReserved := Function.update types.etherReserved addr.macString none }, true) := by
        simp [removeAddress, valid, ethernet, known]
      rw [removed]
      exact ⟨rfl, holds.update_ether addr.macString⟩
    | none =>
      have removed : types.removeAddress addr ifname = (types, false) := by
        simp [removeAddress, valid, ethernet, known]
      rw [holds.ether] at known
      rw [removed, Function.update_eq_self_iff.mpr known.symm]
      exact ⟨rfl, holds⟩
  · have created := create_ipv4 inet sized fits
    have family : addr.family = .inet := eq_of_beq inet
    have width : 8 * addr.sinAddr.length = 32 := by rw [sized.1 family]
    have nonempty := network_ne_nil addr.prefixLen (by omega) width
    have length := network_length addr.prefixLen width
    have unnamed : ifname = [] := by simpa [AddrSlot.removable] using removable
    subst unnamed
    obtain ⟨result, stores⟩ := stores_erase (by omega) holds.ipv4Reserved nonempty length
    rw [remove_ipv4Reserved other family created]
    exact ⟨result, holds.update_ipv4Reserved stores⟩
  · have created := create_ipv6 inet6 sized fits
    have family : addr.family = .inet6 := eq_of_beq inet6
    have width : 8 * addr.sin6Addr.length = 128 := by rw [sized.2 family]
    have nonempty := network_ne_nil addr.prefixLen (by omega) width
    have length := network_length addr.prefixLen width
    by_cases unnamed : ifname = []
    · subst unnamed
      obtain ⟨result, stores⟩ := stores_erase (by omega) holds.ipv6Reserved nonempty length
      rw [remove_ipv6Reserved other family created]
      exact ⟨result, holds.update_ipv6Reserved stores⟩
    · obtain ⟨result, stores⟩ := stores_erase (by omega) (holds.ipv6Iface ifname unnamed) nonempty
        length
      rw [remove_ipv6Iface other family created unnamed, IfaceTables.erase]
      by_cases known : ifname ∈ types.ipv6Iface.names
      · rw [if_pos known]
        exact ⟨result, holds.update_ipv6Iface unnamed (fun new => absurd known new) stores⟩
      · have absent := holds.ipv6Names ifname unnamed known
          ((bitsOf addr.sin6Addr).take (entryLength 128 addr.prefixLen))
        rw [if_neg known, Function.update_eq_self_iff.mpr absent.symm, absent]
        exact ⟨rfl, holds⟩

/-- An IPv4 network of an interface is never removed. -/
theorem remove_unremovable (here : slot addr ifname = some s) (kept : s.removable = false) :
    types.removeAddress addr ifname = (types, false) := by
  have valid := valid_of_slot here
  rcases slot_cases here with ⟨ethernet, rfl⟩ | ⟨other, inet, fits, rfl⟩ |
    ⟨other, apart, inet6, fits, rfl⟩
  · cases kept
  · have named : ifname ≠ [] := by simpa [AddrSlot.removable] using kept
    have family : addr.family = .inet := eq_of_beq inet
    have no6 : addr.isIPv6 = false := by simp [Addr.isIPv6, family]
    unfold removeAddress
    rw [if_neg (by simp [valid]), if_neg (by simp [other])]
    simp [named, no6]
  · cases kept

/-- An address without a slot is of no family or has too long a prefix. -/
theorem slotless_cases (none : slot addr ifname = none) :
    addr.isEthernet = false ∧ (addr.isIPv4 = true → create read4 addr = .none) ∧
      (addr.isIPv6 = true → create read6 addr = .none) := by
  unfold slot at none
  split at none
  · cases none
  case isFalse other =>
    split at none
    · cases none
    case isFalse no4 =>
      split at none
      · cases none
      case isFalse no6 =>
        refine ⟨by simpa using other, fun inet => ?_, fun inet6 => ?_⟩
        · exact create_none fun fits => no4 ⟨inet, fits⟩
        · exact create_none fun fits => no6 ⟨inet6, fits⟩

/-- An address without a slot is neither added nor removed. -/
theorem add_slotless (none : slot addr ifname = none) (order : List (List Char))
    (type : AddrType) : types.addAddress order type addr ifname = (types, false) := by
  obtain ⟨other, no4, no6⟩ := slotless_cases none
  cases family : addr.family with
  | inet => simp [addAddress, Addr.isIPv4, Addr.isIPv6, other, family,
      no4 (by simp [Addr.isIPv4, family])]
  | inet6 => simp [addAddress, Addr.isIPv4, Addr.isIPv6, other, family,
      no6 (by simp [Addr.isIPv6, family])]
  | packet => simp [addAddress, Addr.isIPv4, Addr.isIPv6, other, family]
  | unspec => simp [addAddress, Addr.isIPv4, Addr.isIPv6, other, family]

theorem remove_slotless (none : slot addr ifname = none) :
    types.removeAddress addr ifname = (types, false) := by
  obtain ⟨other, no4, no6⟩ := slotless_cases none
  cases family : addr.family with
  | inet => simp [removeAddress, Addr.isIPv4, Addr.isIPv6, other, family,
      no4 (by simp [Addr.isIPv4, family])]
  | inet6 => simp [removeAddress, Addr.isIPv4, Addr.isIPv6, other, family,
      no6 (by simp [Addr.isIPv6, family])]
  | packet => simp [removeAddress, Addr.isIPv4, Addr.isIPv6, other, family]
  | unspec => simp [removeAddress, Addr.isIPv4, Addr.isIPv6, other, family]

end

end NdAddrType
end NetifyAgent
