import NetifyAgent.AddressSlots
import NetifyAgent.Applications
import NetifyAgent.Lib.Runs
import NetifyAgent.RadixUndo

/-! What `AddAddress` adds `RemoveAddress` takes away. The tables are those of before
then, except that `RemoveAddress` never looks into `ipv4_iface`, and that a new interface
keeps its empty table, which may leave the others in another order of traversal. -/
namespace NetifyAgent.AddressRemoval
open NdAddrType RadixNetworkEntry RadixNetworks RadixKeys RadixTable RadixUndo NdAddrOrder
open ApplicationNetworks FirstMatch Trie

/-! ## What the tables keep -/

/-- What the table of a slot keeps there. -/
def stored (types : NdAddrType) : AddrSlot → Option AddrType
  | .ether mac => types.etherReserved mac
  | .ipv4 ifname network =>
    let tree := if ifname = [] then types.ipv4Reserved else types.ipv4Iface.table ifname
    if network.length ≤ 32 then (tree.find (ofBits 32 network)).map Prod.snd else none
  | .ipv6 ifname network =>
    let tree := if ifname = [] then types.ipv6Reserved else types.ipv6Iface.table ifname
    if network.length ≤ 128 then (tree.find (ofBits 128 network)).map Prod.snd else none

/-- Each radix tree keeps a trie, and a named interface stands behind every table. -/
structure Intact (types : NdAddrType) : Prop where
  holds : Holds types (stored types)
  named : ∀ family, [] ∉ names types family

section
variable {types : NdAddrType}

/-- What a tree stores is what is found in it. -/
theorem stores_found {N : Nat} {T : Type} (small : N < 2 ^ 31) {tree : RadixTree N T}
    {contents : List Bool → Option T} (stores : Stores tree contents) (network : List Bool) :
    (if network.length ≤ N then (tree.find (ofBits N network)).map Prod.snd else none) =
      contents network := by
  split
  case isTrue fits => exact stores_find small stores fits
  case isFalse long =>
    by_contra here
    exact long (stores_short stores (Ne.symm here))

/-- The tables hold nothing but what is found in them. -/
theorem stored_of_holds {contents : AddrSlot → Option AddrType} (holds : Holds types contents) :
    stored types = contents := by
  funext s
  cases s with
  | ether mac => exact holds.ether mac
  | ipv4 ifname network =>
    by_cases unnamed : ifname = []
    · subst unnamed
      exact stores_found (by omega) holds.ipv4Reserved network
    · simp only [stored, if_neg unnamed]
      exact stores_found (by omega) (holds.ipv4Iface ifname unnamed) network
  | ipv6 ifname network =>
    by_cases unnamed : ifname = []
    · subst unnamed
      exact stores_found (by omega) holds.ipv6Reserved network
    · simp only [stored, if_neg unnamed]
      exact stores_found (by omega) (holds.ipv6Iface ifname unnamed) network

theorem Intact.of_holds {contents : AddrSlot → Option AddrType} (holds : Holds types contents)
    (named : ∀ family, [] ∉ names types family) : Intact types :=
  ⟨stored_of_holds holds ▸ holds, named⟩

end

/-! ## Runs -/

/-- A call. -/
inductive Call where
  | addAddress (order : List (List Char)) (type : AddrType) (addr : Addr) (ifname : List Char)
  | removeAddress (addr : Addr) (ifname : List Char)
  deriving DecidableEq, Repr

/-- The tables after a call. -/
def step (types : NdAddrType) : Call → Option NdAddrType
  | .addAddress order type addr ifname => some (types.addAddress order type addr ifname).1
  | .removeAddress addr ifname => some (types.removeAddress addr ifname).1

/-- An order in which the tables may be traversed when an interface is new. -/
def Arranged (types : NdAddrType) (addr : Addr) (ifname : List Char) (order : List (List Char)) :
    Prop :=
  ifname ≠ [] → ifname ∉ names types addr.family → order.Perm (ifname :: names types addr.family)

/-- A call with an address of full length, which is no eclipsed network if it is added. -/
def Meets (types : NdAddrType) : Call → Prop
  | .addAddress order _ addr ifname => Sized addr ∧ Arranged types addr ifname order ∧
      ∀ s ∈ slot addr ifname, s.Visible (stored types)
  | .removeAddress addr _ => Sized addr

section
variable {types : NdAddrType} {addr : Addr} {ifname : List Char} {order : List (List Char)}

/-- Without an interface nothing is put into another order. -/
theorem addAddress_unnamed (order order' : List (List Char)) (type : AddrType) (addr : Addr) :
    types.addAddress order type addr [] = types.addAddress order' type addr [] := by
  unfold addAddress
  simp only [ne_eq, not_true_eq_false, and_false, if_false]

/-- The interfaces stay in their order unless a new one comes in. -/
theorem names_addAddress (order : List (List Char)) (type : AddrType) (addr : Addr)
    (ifname : List Char) (family : Family) :
    names (types.addAddress order type addr ifname).1 family = names types family ∨
      (addr.family = family ∧ ifname ≠ [] ∧ ifname ∉ names types family ∧
        names (types.addAddress order type addr ifname).1 family = order) := by
  have put {N : Nat} (tables : IfaceTables N) (entry : RadixNetworkEntry N) (type : AddrType) :
      (tables.assign order ifname entry type).1.names = tables.names ∨
        (ifname ∉ tables.names ∧ (tables.assign order ifname entry type).1.names = order) := by
    by_cases known : ifname ∈ tables.names
    · left
      unfold IfaceTables.assign
      split <;> exact if_pos known
    · refine .inr ⟨known, ?_⟩
      unfold IfaceTables.assign
      split <;> exact if_neg known
  unfold addAddress
  split
  · exact .inl rfl
  split
  · simp only
    split <;> exact .inl rfl
  simp only
  generalize (if type = .atLocal ∧ addr.isNetwork = true then .atLocalNet else type : AddrType) =
    type'
  split
  · split
    · cases family <;> exact .inl rfl
    · exact .inl rfl
  split
  · split
    · cases family <;> exact .inl rfl
    · exact .inl rfl
  split
  case h_1 entry created =>
    obtain ⟨inet, interface⟩ : addr.isIPv4 = true ∧ ifname ≠ [] := by
      by_contra other
      rw [if_neg other] at created
      cases created
    cases family with
    | inet => exact (put types.ipv4Iface entry type').imp_right fun new =>
        ⟨eq_of_beq inet, interface, new⟩
    | inet6 => exact .inl rfl
    | packet => exact .inl rfl
    | unspec => exact .inl rfl
  split
  case h_2 => exact .inl rfl
  case h_1 entry created =>
    obtain ⟨inet6, interface⟩ : addr.isIPv6 = true ∧ ifname ≠ [] := by
      by_contra other
      rw [if_neg other] at created
      cases created
    cases family with
    | inet6 => exact (put types.ipv6Iface entry type').imp_right fun new =>
        ⟨eq_of_beq inet6, interface, new⟩
    | inet => exact .inl rfl
    | packet => exact .inl rfl
    | unspec => exact .inl rfl

/-- A removal leaves the tables in their order. -/
theorem names_removeAddress (addr : Addr) (ifname : List Char) (family : Family) :
    names (types.removeAddress addr ifname).1 family = names types family := by
  have kept {N : Nat} (tables : IfaceTables N) (entry : RadixNetworkEntry N) :
      (tables.erase ifname entry).1.names = tables.names := by
    unfold IfaceTables.erase
    split
    case isTrue known => exact if_pos known
    case isFalse => rfl
  unfold removeAddress
  split
  · rfl
  split
  · simp only
    split <;> rfl
  split
  · cases family <;> rfl
  split
  · cases family <;> rfl
  split
  · cases family <;> first | exact kept _ _ | rfl
  split
  · cases family <;> first | exact kept _ _ | rfl
  · rfl

theorem intact_empty : Intact {} := by
  refine .of_holds holds_empty fun family => ?_
  cases family <;> exact List.not_mem_nil

/-- A visible address fills its slot, or nothing changes. -/
theorem holds_addAddress (intact : Intact types) (sized : Sized addr)
    (arranged : Arranged types addr ifname order) {s : AddrSlot}
    (here : slot addr ifname = some s) (visible : s.Visible (stored types)) (type : AddrType) :
    (∃ type', Holds (types.addAddress order type addr ifname).1
        (Function.update (stored types) s (some type'))) ∨
      (types.addAddress order type addr ifname).1 = types := by
  obtain ⟨order', same, listed⟩ : ∃ order',
      types.addAddress order type addr ifname = types.addAddress order' type addr ifname ∧
        (addr.isIPv6 = true → ifname ∉ types.ipv6Iface.names →
          ∀ name ∈ ifname :: types.ipv6Iface.names, name ∈ order') := by
    by_cases unnamed : ifname = []
    · subst unnamed
      exact ⟨_, addAddress_unnamed order ([] :: types.ipv6Iface.names) type addr,
        fun _ _ name member => member⟩
    · refine ⟨order, rfl, fun inet6 new name member => ?_⟩
      have family : addr.family = .inet6 := eq_of_beq inet6
      have perm := arranged unnamed
      simp only [names, family] at perm
      exact (perm new).mem_iff.mpr member
  rw [same]
  rcases holds_add intact.holds sized here visible listed type with
    ⟨type', -, added⟩ | ⟨unchanged, -⟩
  · exact .inl ⟨type', added⟩
  · exact .inr (congrArg Prod.fst unchanged)

/-- **One call** that meets the condition keeps the tables intact. -/
theorem intact_step (intact : Intact types) (call : Call) (meets : Meets types call)
    {types' : NdAddrType} (taken : step types call = some types') : Intact types' := by
  cases call with
  | addAddress order type addr ifname =>
    cases taken
    obtain ⟨sized, arranged, visible⟩ := meets
    have named (family : Family) :
        [] ∉ names (types.addAddress order type addr ifname).1 family := by
      rcases names_addAddress order type addr ifname family with same | ⟨rfl, interface, new, added⟩
      · rw [same]
        exact intact.named family
      · rw [added, (arranged interface new).mem_iff, List.mem_cons, not_or]
        exact ⟨Ne.symm interface, intact.named _⟩
    cases here : slot addr ifname with
    | none =>
      rw [add_slotless here] at named ⊢
      exact intact
    | some s =>
      rcases holds_addAddress intact sized arranged here (visible s here) type with
        ⟨type', added⟩ | unchanged
      · exact .of_holds added named
      · rw [unchanged]
        exact intact
  | removeAddress addr ifname =>
    cases taken
    have named (family : Family) : [] ∉ names (types.removeAddress addr ifname).1 family := by
      rw [names_removeAddress]
      exact intact.named family
    cases here : slot addr ifname with
    | none =>
      rw [remove_slotless here]
      exact intact
    | some s =>
      cases removable : s.removable with
      | false =>
        rw [remove_unremovable here removable]
        exact intact
      | true => exact .of_holds (holds_remove intact.holds meets here removable).2 named

/-- **Runs** of such calls keep the tables intact. -/
theorem intact_reached {start : NdAddrType} (intact : Intact start)
    (reached : Runs.Reaches step Meets start types) : Intact types :=
  reached.invariant intact fun _ call _ intact taken meets => intact_step intact call meets taken

end

/-! ## Adding and removing -/

/-- The address is removed again, and every address is classified as before. -/
structure Undone (types : NdAddrType) (order : List (List Char)) (type : AddrType) (addr : Addr)
    (ifname : List Char) : Prop where
  removed : ((types.addAddress order type addr ifname).1.removeAddress addr ifname).2 = true
  same : ∀ other, Sized other →
    ((types.addAddress order type addr ifname).1.removeAddress addr ifname).1.classify other =
      types.classify other

/-- The networks of the interfaces. -/
def networks (types : NdAddrType) (ifname : List Char) (network : List Bool) : Option AddrType :=
  stored types (.ipv6 ifname network)

/-- What is added to a slot is removed again: it has no interface, or it is an IPv6 network
of a known one, or one of a new interface where the order of the others makes no difference. -/
def Restorable (types : NdAddrType) : AddrSlot → Prop
  | .ether _ => True
  | .ipv4 ifname _ => ifname = []
  | .ipv6 ifname _ => ifname = [] ∨ ifname ∈ types.ipv6Iface.names ∨
      ∀ other, Sized other → other.isIPv6 = true → Unanimous types (networks types) other

section
variable {types types' : NdAddrType} {addr other : Addr} {ifname : List Char}
  {order : List (List Char)} {type : AddrType} {s : AddrSlot}

/-- An address is classified by the map of hardware addresses and by what the tables answer. -/
theorem classify_congr (ether : types'.etherReserved = types.etherReserved)
    (answers : other.isIP = true → asked types' other = asked types other) :
    types'.classify other = types.classify other := by
  by_cases ip : other.isIP = true
  · rw [classify_ip types' ip, classify_ip types ip, answers ip]
  · have apart : other.isIPv4 = false ∧ other.isIPv6 = false := by
      cases family : other.family <;> simp_all [Addr.isIP, Addr.isIPv4, Addr.isIPv6]
    unfold classify
    simp only [apart, classifyEthernet, ether, Bool.false_eq_true, if_false]

theorem query_inet (inet : other.family = .inet) (sized : Sized other) :
    createQuery read4 other = some (ofBits 32 (bitsOf other.sinAddr)) := by
  have bytes := sized.1 inet
  refine createQuery_bits (by simp [Addr.isValid, inet]) ?_ fun i inside => read4_bits bytes inside
  rw [length_bitsOf, bytes]

theorem query_inet6 (inet6 : other.family = .inet6) (sized : Sized other) :
    createQuery read6 other = some (ofBits 128 (bitsOf other.sin6Addr)) := by
  have bytes := sized.2 inet6
  refine createQuery_bits (by simp [Addr.isValid, inet6]) ?_ fun i inside => read6_bits bytes inside
  rw [length_bitsOf, bytes]

/-- A table answers a query with its longest match. -/
theorem answer_longest {N : Nat} {read : Addr → BitVec N} {bits : List Bool} (small : N < 2 ^ 31)
    {tree : RadixTree N AddrType} {contents : List Bool → Option AddrType}
    (query : createQuery read other = some (ofBits N bits)) (full : bits.length = N)
    (stores : Stores tree contents) :
    IsLongest contents bits (((createQuery read other).bind tree.longestMatch).map Prod.snd) := by
  rw [query]
  exact stores_longest small stores full

variable {contents : AddrSlot → Option AddrType}

theorem iface_longest (holds : Holds types contents) (interface : ifname ≠ [])
    (inet6 : other.family = .inet6) (sized : Sized other) :
    IsLongest (fun network => contents (.ipv6 ifname network)) (bitsOf other.sin6Addr)
      (ifaceAnswer types other ifname) := by
  have answer := answer_longest (by omega) (query_inet6 inet6 sized)
    (by rw [length_bitsOf, sized.2 inet6]) (holds.ipv6Iface ifname interface)
  simpa only [ifaceAnswer, inet6] using answer

/-- Tables that hold the same answer the same. -/
theorem ifaceAnswer_same (holds : Holds types contents) (holds' : Holds types' contents)
    (interface : ifname ≠ []) (sized : Sized other) :
    ifaceAnswer types' other ifname = ifaceAnswer types other ifname := by
  cases kind : other.family with
  | inet =>
    have full : (bitsOf other.sinAddr).length = 32 := by rw [length_bitsOf, sized.1 kind]
    have answer := answer_longest (by omega) (query_inet kind sized) full
      (holds.ipv4Iface ifname interface)
    have answer' := answer_longest (by omega) (query_inet kind sized) full
      (holds'.ipv4Iface ifname interface)
    simp only [ifaceAnswer, kind]
    exact answer'.unique answer
  | inet6 =>
    have answer := iface_longest holds interface kind sized
    exact (iface_longest holds' interface kind sized).unique answer
  | packet => simp only [ifaceAnswer, kind]
  | unspec => simp only [ifaceAnswer, kind]

theorem reservedAnswer_same (holds : Holds types contents) (holds' : Holds types' contents)
    (sized : Sized other) : reservedAnswer types' other = reservedAnswer types other := by
  cases kind : other.family with
  | inet =>
    have full : (bitsOf other.sinAddr).length = 32 := by rw [length_bitsOf, sized.1 kind]
    have answer := answer_longest (by omega) (query_inet kind sized) full holds.ipv4Reserved
    have answer' := answer_longest (by omega) (query_inet kind sized) full holds'.ipv4Reserved
    simp only [reservedAnswer, kind]
    exact answer'.unique answer
  | inet6 =>
    have full : (bitsOf other.sin6Addr).length = 128 := by rw [length_bitsOf, sized.2 kind]
    have answer := answer_longest (by omega) (query_inet6 kind sized) full holds.ipv6Reserved
    have answer' := answer_longest (by omega) (query_inet6 kind sized) full holds'.ipv6Reserved
    simp only [reservedAnswer, kind]
    exact answer'.unique answer
  | packet => simp only [reservedAnswer, kind]
  | unspec => simp only [reservedAnswer, kind]

/-- Tables that hold the same differ by the order of traversal. -/
theorem asked_same (holds : Holds types contents) (holds' : Holds types' contents)
    (named : ∀ family, [] ∉ names types' family) (sized : Sized other) :
    asked types' other =
      ((first (ifaceAnswer types other) (report other) (names types' other.family)).or
        ((reservedAnswer types other).map (report other))).getD .atOther := by
  have found (order : List (List Char)) (named : [] ∉ order) :
      order.findSome? (ifaceAnswer types' other) = order.findSome? (ifaceAnswer types other) := by
    induction order with
    | nil => rfl
    | cons name rest ih =>
      rw [List.mem_cons, not_or] at named
      rw [List.findSome?_cons, List.findSome?_cons, ih named.2,
        ifaceAnswer_same holds holds' (Ne.symm named.1) sized]
  rw [asked, reservedAnswer_same holds holds' sized, first, found _ (named _)]
  rfl

/-- Tables that hold the same and are traversed in the same order classify alike. -/
theorem classify_same (holds : Holds types contents) (holds' : Holds types' contents)
    (named : ∀ family, [] ∉ names types family)
    (same : ∀ family, names types' family = names types family) (sized : Sized other) :
    types'.classify other = types.classify other := by
  refine classify_congr ?_ fun _ => ?_
  · funext mac
    rw [holds.ether, holds'.ether]
  · have named' (family : Family) : [] ∉ names types' family := by
      rw [same]
      exact named family
    rw [asked_same holds holds' named' sized, asked_same holds holds named sized, same]

/-! ### The slot of an address -/

/-- What an accepted call has assigned to a table. -/
theorem accepted_ipv4Reserved (ethernet : addr.isEthernet = false) (family : addr.family = .inet)
    {entry : RadixNetworkEntry 32} (created : create read4 addr = some entry)
    (accepted : (types.addAddress order type addr []).2 = true) :
    ∃ tree, types.ipv4Reserved.assign entry (storedType type addr) = .ok tree := by
  cases assigned : types.ipv4Reserved.assign entry (storedType type addr) with
  | ok tree => exact ⟨tree, rfl⟩
  | error refused =>
    unfold storedType at assigned
    simp [addAddress, Addr.isValid, Addr.isIPv4, ethernet, family, created, assigned] at accepted

theorem accepted_ipv6Reserved (ethernet : addr.isEthernet = false) (family : addr.family = .inet6)
    {entry : RadixNetworkEntry 128} (created : create read6 addr = some entry)
    (accepted : (types.addAddress order type addr []).2 = true) :
    ∃ tree, types.ipv6Reserved.assign entry (storedType type addr) = .ok tree := by
  cases assigned : types.ipv6Reserved.assign entry (storedType type addr) with
  | ok tree => exact ⟨tree, rfl⟩
  | error refused =>
    unfold storedType at assigned
    simp [addAddress, Addr.isValid, Addr.isIPv4, Addr.isIPv6, ethernet, family, created, assigned]
      at accepted

theorem accepted_ipv6Iface (ethernet : addr.isEthernet = false) (family : addr.family = .inet6)
    {entry : RadixNetworkEntry 128} (created : create read6 addr = some entry)
    (interface : ifname ≠ []) (accepted : (types.addAddress order type addr ifname).2 = true) :
    ∃ tree, (types.ipv6Iface.table ifname).assign entry (storedType type addr) = .ok tree := by
  cases assigned : (types.ipv6Iface.table ifname).assign entry (storedType type addr) with
  | ok tree => exact ⟨tree, rfl⟩
  | error refused =>
    unfold storedType at assigned
    simp [addAddress, Addr.isValid, Addr.isIPv4, Addr.isIPv6, ethernet, family, created, interface,
      IfaceTables.assign, assigned] at accepted

/-- What was put into a table is erased from it. -/
theorem erase_put {N : Nat} {tables : IfaceTables N} {tree : RadixTree N AddrType}
    (member : ifname ∈ (tables.put order ifname tree).names) (entry : RadixNetworkEntry N) :
    (tables.put order ifname tree).erase ifname entry =
      (tables.put order ifname (tree.erase entry).1, (tree.erase entry).2) := by
  have table : (tables.put order ifname tree).table ifname = tree := Function.update_self ..
  have again : (tables.put order ifname tree).put (tables.put order ifname tree).names ifname
      (tree.erase entry).1 = tables.put order ifname (tree.erase entry).1 := by
    have names : (if ifname ∈ (tables.put order ifname tree).names then
        (tables.put order ifname tree).names else (tables.put order ifname tree).names) =
        (tables.put order ifname tree).names := if_pos member
    unfold IfaceTables.put at names ⊢
    simp only [Function.update_idem] at names ⊢
    rw [names]
  rw [IfaceTables.erase, if_pos member, table]
  simp only [again]

/-- Nothing changes where nothing is stored. -/
theorem update_absent {σ : Type} [DecidableEq σ] {contents : σ → Option AddrType} {s : σ}
    (absent : contents s = none) : Function.update contents s none = contents :=
  Function.update_eq_self_iff.mpr absent.symm

/-- **Adding and removing** leaves what the tables hold. -/
theorem restored (intact : Intact types) (sized : Sized addr)
    (arranged : Arranged types addr ifname order) (here : slot addr ifname = some s)
    (absent : stored types s = none) (removable : s.removable = true)
    (accepted : (types.addAddress order type addr ifname).2 = true) :
    ((types.addAddress order type addr ifname).1.removeAddress addr ifname).2 = true ∧
      Holds ((types.addAddress order type addr ifname).1.removeAddress addr ifname).1
        (stored types) := by
  have valid := valid_of_slot here
  rw [← update_absent absent]
  rcases slot_cases here with ⟨ethernet, rfl⟩ | ⟨other, inet, fits, rfl⟩ |
    ⟨other, apart, inet6, fits, rfl⟩
  · have free : types.etherReserved addr.macString = none := absent
    have added : types.addAddress order type addr ifname = ({ types with
        etherReserved := Function.update types.etherReserved addr.macString (some type) }, true) := by
      simp [addAddress, valid, ethernet, free]
    have removed : (types.addAddress order type addr ifname).1.removeAddress addr ifname =
        ({ types with etherReserved := Function.update types.etherReserved addr.macString none },
          true) := by
      rw [added]
      simp [removeAddress, valid, ethernet]
    rw [removed]
    exact ⟨rfl, intact.holds.update_ether addr.macString⟩
  · have created := create_ipv4 inet sized fits
    have family : addr.family = .inet := eq_of_beq inet
    have width : 8 * addr.sinAddr.length = 32 := by rw [sized.1 family]
    have unnamed : ifname = [] := by simpa [AddrSlot.removable] using removable
    subst unnamed
    obtain ⟨tree, assigned⟩ := accepted_ipv4Reserved other family created accepted
    obtain ⟨erased, stores⟩ := stores_undone (by omega) intact.holds.ipv4Reserved
      (network_ne_nil addr.prefixLen (by omega) width) (network_length addr.prefixLen width) absent
      assigned
    rw [add_ipv4Reserved other family created order assigned,
      remove_ipv4Reserved other family created]
    refine ⟨erased, intact.holds.update_ipv4Reserved ?_⟩
    rwa [← update_ipv4, update_absent absent]
  · have created := create_ipv6 inet6 sized fits
    have family : addr.family = .inet6 := eq_of_beq inet6
    have width : 8 * addr.sin6Addr.length = 128 := by rw [sized.2 family]
    have nonempty := network_ne_nil addr.prefixLen (by omega) width
    have length := network_length addr.prefixLen width
    by_cases unnamed : ifname = []
    · subst unnamed
      obtain ⟨tree, assigned⟩ := accepted_ipv6Reserved other family created accepted
      obtain ⟨erased, stores⟩ := stores_undone (by omega) intact.holds.ipv6Reserved nonempty length
        absent assigned
      rw [add_ipv6Reserved other family created order assigned,
        remove_ipv6Reserved other family created]
      refine ⟨erased, intact.holds.update_ipv6Reserved ?_⟩
      rwa [← update_ipv6, update_absent absent]
    · obtain ⟨tree, assigned⟩ := accepted_ipv6Iface other family created unnamed accepted
      obtain ⟨erased, stores⟩ := stores_undone (by omega) (intact.holds.ipv6Iface ifname unnamed)
        nonempty length absent assigned
      have perm := arranged unnamed
      simp only [names, family] at perm
      have member : ifname ∈ (types.ipv6Iface.put order ifname tree).names := by
        unfold IfaceTables.put
        by_cases known : ifname ∈ types.ipv6Iface.names
        · simpa only [if_pos known] using known
        · simp only [if_neg known]
          exact (perm known).mem_iff.mpr (List.mem_cons_self ..)
      rw [add_ipv6Iface other family created order unnamed assigned,
        remove_ipv6Iface other family created unnamed, erase_put member]
      refine ⟨erased, intact.holds.update_ipv6Iface unnamed
        (fun new name inside => (perm new).mem_iff.mpr inside) ?_⟩
      rwa [← update_ipv6, update_absent absent]

/-! ### The order of traversal -/

/-- What a call returns does not depend on the order. -/
theorem accepted_order (order order' : List (List Char)) (type : AddrType) (addr : Addr)
    (ifname : List Char) : (types.addAddress order type addr ifname).2 =
      (types.addAddress order' type addr ifname).2 := by
  have assigned {N : Nat} (tables : IfaceTables N) (entry : RadixNetworkEntry N) (type : AddrType) :
      (tables.assign order ifname entry type).2 = (tables.assign order' ifname entry type).2 := by
    unfold IfaceTables.assign
    split <;> rfl
  unfold addAddress
  simp only [assigned]
  split
  · rfl
  split
  · split <;> rfl
  split
  · split <;> rfl
  split
  · split <;> rfl
  split
  · rfl
  split <;> rfl

/-- The interfaces after a call and its opposite, if the first brings in a new one. -/
theorem names_new (inet6 : addr.isIPv6 = true) (interface : ifname ≠ [])
    (new : ifname ∉ types.ipv6Iface.names)
    (accepted : (types.addAddress order type addr ifname).2 = true) :
    ((types.addAddress order type addr ifname).1.removeAddress addr ifname).1.ipv6Iface.names =
      order := by
  have family : addr.family = .inet6 := eq_of_beq inet6
  have other : addr.isEthernet = false := by simp [Addr.isEthernet, family]
  have kept := @names_removeAddress (types.addAddress order type addr ifname).1 addr ifname .inet6
  simp only [names] at kept
  rw [kept]
  cases created : create read6 addr with
  | none =>
    simp [addAddress, Addr.isValid, Addr.isIPv4, Addr.isIPv6, family, other, created] at accepted
  | some entry =>
    obtain ⟨tree, assigned⟩ := accepted_ipv6Iface other family created interface accepted
    rw [add_ipv6Iface other family created order interface assigned]
    exact if_neg new

/-- The table of a new interface answers nothing. -/
theorem answer_new (intact : Intact types) (interface : ifname ≠ [])
    (new : ifname ∉ types.ipv6Iface.names) (inet6 : other.family = .inet6) (sized : Sized other) :
    ifaceAnswer types other ifname = none := by
  have answer := iface_longest intact.holds interface inet6 sized
  have nothing := intact.holds.ipv6Names ifname interface new
  exact answer.unique (.inl ⟨rfl, fun start _ => nothing start⟩)

theorem unanimous_iff (inet6 : other.family = .inet6) : Unanimous types (networks types) other ↔
    ∀ ifname ∈ types.ipv6Iface.names, ∀ ifname' ∈ types.ipv6Iface.names, ∀ type type',
      IsLongest (networks types ifname) (bitsOf other.sin6Addr) (some type) →
      IsLongest (networks types ifname') (bitsOf other.sin6Addr) (some type') →
        report other type = report other type' := by
  have fixed : special other = none := by simp [special, inet6]
  have address : other.getAddress = other.sin6Addr := by
    unfold Addr.getAddress
    rw [inet6]
  unfold Unanimous
  rw [fixed, address]
  simp only [names, inet6]

/-- The interfaces are unanimous where their matches agree. -/
theorem unanimous_agree (intact : Intact types) (inet6 : other.family = .inet6)
    (sized : Sized other) : Unanimous types (networks types) other ↔
      Agree (ifaceAnswer types other) (report other) types.ipv6Iface.names := by
  have answer {name : List Char} (member : name ∈ types.ipv6Iface.names) :
      IsLongest (networks types name) (bitsOf other.sin6Addr) (ifaceAnswer types other name) :=
    iface_longest intact.holds (fun unnamed => intact.named .inet6 (unnamed ▸ member)) inet6 sized
  rw [unanimous_iff inet6]
  constructor
  · intro same name member name' member' type type' here there
    exact same name member name' member' type type' (here ▸ answer member) (there ▸ answer member')
  · intro agree name member name' member' type type' here there
    exact agree name member name' member' type type' ((answer member).unique here)
      ((answer member').unique there)

/-- With a new interface every address is classified as before, in every order, where the
others are unanimous. -/
theorem orders_iff (intact : Intact types) (sized : Sized other) (inet6 : other.family = .inet6)
    (interface : ifname ≠ []) (new : ifname ∉ types.ipv6Iface.names) :
    (∀ order, order.Perm (ifname :: types.ipv6Iface.names) →
      ((first (ifaceAnswer types other) (report other) order).or
        ((reservedAnswer types other).map (report other))).getD .atOther =
        asked types other) ↔ Unanimous types (networks types) other := by
  rw [unanimous_agree intact inet6 sized]
  constructor
  · intro same name member name' member' type type' here there
    obtain ⟨order, perm, found⟩ := first_of_order (report other)
      (List.mem_cons_of_mem ifname member) here
    obtain ⟨order', perm', found'⟩ := first_of_order (report other)
      (List.mem_cons_of_mem ifname member') there
    have equal := (same order perm).trans (same order' perm').symm
    rwa [found, found'] at equal
  · intro agree order perm
    have others : ∀ name ∈ [ifname], ifaceAnswer types other name = none := by
      intro name member
      rw [List.mem_singleton.mp member]
      exact answer_new intact interface new inet6 sized
    have kept := (agree_iff_order [ifname] others).mp agree order perm
    simp only [asked, names, inet6, kept]

/-- The tables after a call and its opposite are traversed as before, unless the call brings
in a new interface of IPv6 networks. -/
theorem names_kept (here : slot addr ifname = some s) (removable : s.removable = true)
    (family : Family) :
    names ((types.addAddress order type addr ifname).1.removeAddress addr ifname).1 family =
        names types family ∨
      (family = .inet6 ∧ addr.isIPv6 = true ∧ ifname ≠ [] ∧ ifname ∉ types.ipv6Iface.names) := by
  rw [names_removeAddress]
  rcases names_addAddress order type addr ifname family with same | ⟨rfl, interface, new, -⟩
  · exact .inl same
  · rcases slot_cases here with ⟨ethernet, rfl⟩ | ⟨-, inet, -, rfl⟩ | ⟨-, -, inet6, -, rfl⟩
    · have kind : addr.family = .packet := by
        simp only [Addr.isEthernet, Bool.and_eq_true, beq_iff_eq] at ethernet
        exact ethernet.1.1
      left
      rw [kind]
      rfl
    · exact absurd (by simpa [AddrSlot.removable] using removable) interface
    · have kind : addr.family = .inet6 := eq_of_beq inet6
      simp only [names, kind] at new
      exact .inr ⟨kind, inet6, interface, new⟩

/-- What a slot that is removed has to do with its interface. -/
theorem removable_of_restorable (restorable : Restorable types s) : s.removable = true := by
  cases s with
  | ether mac => rfl
  | ipv4 ifname network => exact decide_eq_true restorable
  | ipv6 ifname network => rfl

/-- An address is classified after a call and its opposite by the tables of before in the
order of then. -/
theorem classify_after (intact : Intact types) (holds : Holds types' (stored types))
    (named : ∀ family, [] ∉ names types' family) (sized : Sized other) (ip : other.isIP = true) :
    types'.classify other = (special other).getD
      (((first (ifaceAnswer types other) (report other) (names types' other.family)).or
        ((reservedAnswer types other).map (report other))).getD .atOther) := by
  rw [classify_ip types' ip, asked_same intact.holds holds named sized]

theorem named_after (intact : Intact types) (arranged : Arranged types addr ifname order)
    (family : Family) :
    [] ∉ names ((types.addAddress order type addr ifname).1.removeAddress addr ifname).1 family := by
  rw [names_removeAddress]
  rcases names_addAddress order type addr ifname family with same | ⟨rfl, interface, new, added⟩
  · rw [same]
    exact intact.named family
  · rw [added, (arranged interface new).mem_iff, List.mem_cons, not_or]
    exact ⟨Ne.symm interface, intact.named _⟩

/-- **An accepted address** is removed again and leaves no trace, in every order of the
interfaces, exactly if its slot is restorable. -/
theorem intact_undone_iff (intact : Intact types) (sized : Sized addr)
    (absent : ∀ s ∈ slot addr ifname, stored types s = none)
    (accepted : (types.addAddress order type addr ifname).2 = true) :
    (∀ order, Arranged types addr ifname order → Undone types order type addr ifname) ↔
      ∀ s ∈ slot addr ifname, Restorable types s := by
  have accepts (order' : List (List Char)) :
      (types.addAddress order' type addr ifname).2 = true :=
    (accepted_order order' order type addr ifname).trans accepted
  constructor
  · intro undone s here
    rcases slot_cases here with ⟨-, rfl⟩ | ⟨-, -, -, rfl⟩ | ⟨-, apart, inet6, -, rfl⟩
    · trivial
    · by_contra interface
      have removed := (undone (ifname :: names types addr.family)
        fun _ _ => List.Perm.refl _).removed
      rw [remove_unremovable here (decide_eq_false interface)] at removed
      cases removed
    · refine or_iff_not_imp_left.mpr fun interface => or_iff_not_imp_left.mpr fun new => ?_
      intro other sized' kind
      have family : addr.family = .inet6 := eq_of_beq inet6
      have family' : other.family = .inet6 := eq_of_beq kind
      have ip : other.isIP = true := by simp [Addr.isIP, family']
      have fixed : special other = none := by simp [special, family']
      refine (orders_iff intact sized' family' interface new).mp fun order perm => ?_
      have arranged : Arranged types addr ifname order := by
        intro _ _
        simpa only [names, family] using perm
      obtain ⟨-, holds⟩ := restored intact sized arranged here (absent _ here) rfl (accepts order)
      have same := (undone order arranged).same other sized'
      rw [classify_after intact holds (named_after intact arranged) sized' ip,
        classify_ip types ip, fixed] at same
      simpa only [names, family', names_new inet6 interface new (accepts order),
        Option.getD_none] using same
  · intro restorable order arranged
    cases here : slot addr ifname with
    | none =>
      have refused := accepts order
      rw [add_slotless here] at refused
      cases refused
    | some s =>
      have restorable := restorable s here
      have removable := removable_of_restorable restorable
      obtain ⟨removed, holds⟩ := restored intact sized arranged here (absent _ here) removable
        (accepts order)
      refine ⟨removed, fun other sized' => classify_congr ?_ fun ip => ?_⟩
      · funext mac
        rw [holds.ether, intact.holds.ether]
      · rw [asked_same intact.holds holds (named_after intact arranged) sized']
        rcases @names_kept types addr ifname order type s here removable other.family with
          same | ⟨family', inet6, interface, new⟩
        · rw [same]
          rfl
        · have family : addr.family = .inet6 := eq_of_beq inet6
          have perm := arranged interface
          simp only [names, family] at perm
          have unanimous : Unanimous types (networks types) other := by
            rcases slot_cases here with ⟨ethernet, -⟩ | ⟨-, inet, -, -⟩ | ⟨-, -, -, -, rfl⟩
            · simp [Addr.isEthernet, family] at ethernet
            · simp [Addr.isIPv4, family] at inet
            · rcases restorable with unnamed | known | unanimous
              · exact absurd unnamed interface
              · exact absurd known new
              · exact unanimous other sized' (by simp [Addr.isIPv6, family'])
          have kept := (orders_iff intact sized' family' interface new).mpr unanimous order
            (perm new)
          rw [← kept]
          simp only [names, family', names_new inet6 interface new (accepts order)]

end

/-! ## The constructor -/

/-- The IPv4 hosts in the texts of the constructor. -/
def hosts4 : List (String × List UInt8) := [
  ("127.0.0.0", [127, 0, 0, 0]), ("10.0.0.0", [10, 0, 0, 0]), ("100.64.0.0", [100, 64, 0, 0]),
  ("172.16.0.0", [172, 16, 0, 0]), ("192.168.0.0", [192, 168, 0, 0]),
  ("224.0.0.0", [224, 0, 0, 0]), ("169.254.255.255", [169, 254, 255, 255])]

/-- The IPv6 hosts. -/
def hosts6 : List (String × List UInt8) := [
  ("::1", List.replicate 15 0 ++ [1]), ("fc00::", 0xfc :: List.replicate 15 0),
  ("fd00::", 0xfd :: List.replicate 15 0), ("fe80::", 0xfe :: 0x80 :: List.replicate 14 0),
  ("ff00::", 0xff :: List.replicate 15 0)]

/-- `inet_pton` reads the texts of the constructor. -/
structure ReadsReserved (pton : Pton) : Prop where
  inet : ∀ e ∈ hosts4, pton.inet e.1.toList = some e.2
  inet6 : ∀ e ∈ hosts6, pton.inet e.1.toList = none ∧ pton.inet6 e.1.toList = some e.2

/-- The addresses that the constructor adds. -/
def reservedAddrs : List (AddrType × Addr) :=
  let inet (bytes : List UInt8) (prefixLen : Nat) : Addr :=
    { family := .inet, sinAddr := bytes, prefixLen }
  let inet6 (bytes : List UInt8) (prefixLen : Nat) : Addr :=
    { family := .inet6, sin6Addr := bytes, prefixLen }
  [(.atReserved, inet [127, 0, 0, 0] 8), (.atReserved, inet [10, 0, 0, 0] 8),
    (.atReserved, inet [100, 64, 0, 0] 10), (.atReserved, inet [172, 16, 0, 0] 12),
    (.atReserved, inet [192, 168, 0, 0] 16),
    (.atReserved, inet6 (List.replicate 15 0 ++ [1]) 128),
    (.atReserved, inet6 (0xfc :: List.replicate 15 0) 7),
    (.atReserved, inet6 (0xfd :: List.replicate 15 0) 8),
    (.atReserved, inet6 (0xfe :: 0x80 :: List.replicate 14 0) 10),
    (.atMulticast, inet [224, 0, 0, 0] 4), (.atMulticast, inet6 (0xff :: List.replicate 15 0) 8),
    (.atBroadcast, inet [169, 254, 255, 255] 0)]

/-- A slot that lies inside another slot of the same table. -/
def Inside : AddrSlot → AddrSlot → Prop
  | .ipv4 ifname network, .ipv4 ifname' network' => ifname = ifname' ∧ network' <+: network
  | .ipv6 ifname network, .ipv6 ifname' network' => ifname = ifname' ∧ network' <+: network
  | _, _ => False

instance : DecidableRel Inside := fun s s' =>
  match s, s' with
  | .ipv4 ifname network, .ipv4 ifname' network' =>
    inferInstanceAs (Decidable (ifname = ifname' ∧ network' <+: network))
  | .ipv6 ifname network, .ipv6 ifname' network' =>
    inferInstanceAs (Decidable (ifname = ifname' ∧ network' <+: network))
  | .ether _, _ => isFalse id
  | .ipv4 _ _, .ether _ => isFalse id
  | .ipv4 _ _, .ipv6 _ _ => isFalse id
  | .ipv6 _ _, .ether _ => isFalse id
  | .ipv6 _ _, .ipv4 _ _ => isFalse id

section
variable {types : NdAddrType} {pton : Pton}

/-- A slot inside which nothing is kept is visible. -/
theorem visible_of_apart {s : AddrSlot} {contents : AddrSlot → Option AddrType}
    (apart : ∀ s', contents s' ≠ none → ¬ Inside s' s) : s.Visible contents := by
  cases s with
  | ether mac => trivial
  | ipv4 ifname network =>
    refine RadixInsert.not_eclipsed fun rest => ?_
    by_contra here
    exact apart _ here ⟨rfl, List.prefix_append _ _⟩
  | ipv6 ifname network =>
    refine RadixInsert.not_eclipsed fun rest => ?_
    by_contra here
    exact apart _ here ⟨rfl, List.prefix_append _ _⟩

/-- What a visible address adds is kept in its slot. -/
theorem stored_addAddress (intact : Intact types) {addr : Addr} (sized : Sized addr)
    {ifname : List Char} {order : List (List Char)} (arranged : Arranged types addr ifname order)
    (visible : ∀ s ∈ slot addr ifname, s.Visible (stored types)) (type : AddrType) {s : AddrSlot}
    (kept : stored (types.addAddress order type addr ifname).1 s ≠ none) :
    stored types s ≠ none ∨ s ∈ slot addr ifname := by
  cases here : slot addr ifname with
  | none =>
    rw [add_slotless here] at kept
    exact .inl kept
  | some s' =>
    rcases holds_addAddress intact sized arranged here (visible s' here) type with
      ⟨type', added⟩ | unchanged
    · by_cases same : s = s'
      · exact .inr (same ▸ rfl)
      · rw [stored_of_holds added, Function.update_of_ne same] at kept
        exact .inl kept
    · rw [unchanged] at kept
      exact .inl kept

/-- Addresses none of which lies inside a later one leave the tables intact. -/
theorem intact_adds {adds : List (AddrType × Addr)} (intact : Intact types)
    (sized : ∀ e ∈ adds, Sized e.2)
    (earlier : ∀ s, stored types s ≠ none → ∀ e ∈ adds, ∀ s' ∈ slot e.2 [], ¬ Inside s s')
    (apart : adds.Pairwise fun e e' => ∀ s ∈ slot e.2 [], ∀ s' ∈ slot e'.2 [], ¬ Inside s s') :
    Intact (adds.foldl (fun types e => (types.addAddress [] e.1 e.2 []).1) types) := by
  induction adds generalizing types with
  | nil => exact intact
  | cons e rest ih =>
    rw [List.pairwise_cons] at apart
    have size := sized e (List.mem_cons_self ..)
    have visible : ∀ s ∈ slot e.2 [], s.Visible (stored types) := fun s here =>
      visible_of_apart fun s' kept => earlier s' kept e (List.mem_cons_self ..) s here
    have arranged : Arranged types e.2 [] [] := fun interface => absurd rfl interface
    have next := intact_step intact (.addAddress [] e.1 e.2 []) ⟨size, arranged, visible⟩ rfl
    refine ih next (fun e' member => sized e' (List.mem_cons_of_mem _ member)) ?_ apart.2
    intro s kept e' member s' here
    rcases stored_addAddress intact size arranged visible e.1 kept with before | added
    · exact earlier s before e' (List.mem_cons_of_mem _ member) s' here
    · exact apart.1 e' member s added s' here

/-- The constructor adds the reserved addresses. -/
theorem construct_eq (reads : ReadsReserved pton) : construct pton =
    reservedAddrs.foldl (fun types e => (types.addAddress [] e.1 e.2 []).1) {} := by
  have inet {text host : String} {bytes : List UInt8} {prefixLen : Nat}
      (member : (host, bytes) ∈ hosts4) (cut : text.toList.takeWhile (· ≠ '/') = host.toList)
      (length : suffixLength (text.toList.dropWhile (· ≠ '/')) = some prefixLen)
      (fits : prefixLen ≤ 32) :
      Addr.ofText pton text.toList = { family := .inet, sinAddr := bytes, prefixLen } :=
    ofText_inet length (cut ▸ reads.inet _ member) fits
  have inet6 {text host : String} {bytes : List UInt8} {prefixLen : Nat}
      (member : (host, bytes) ∈ hosts6) (cut : text.toList.takeWhile (· ≠ '/') = host.toList)
      (length : suffixLength (text.toList.dropWhile (· ≠ '/')) = some prefixLen)
      (fits : prefixLen ≤ 128) :
      Addr.ofText pton text.toList = { family := .inet6, sin6Addr := bytes, prefixLen } :=
    ofText_inet6 length (cut ▸ (reads.inet6 _ member).1) (cut ▸ (reads.inet6 _ member).2) fits
  have texts : reservedNetworks.map (fun e => (e.1, Addr.ofText pton e.2.toList)) =
      reservedAddrs := by
    simp only [reservedNetworks, List.map_cons, List.map_nil]
    rw [@inet "127.0.0.0/8" "127.0.0.0" [127, 0, 0, 0] 8 (by decide) rfl rfl (by decide),
      @inet "10.0.0.0/8" "10.0.0.0" [10, 0, 0, 0] 8 (by decide) rfl rfl (by decide),
      @inet "100.64.0.0/10" "100.64.0.0" [100, 64, 0, 0] 10 (by decide) rfl rfl (by decide),
      @inet "172.16.0.0/12" "172.16.0.0" [172, 16, 0, 0] 12 (by decide) rfl rfl (by decide),
      @inet "192.168.0.0/16" "192.168.0.0" [192, 168, 0, 0] 16 (by decide) rfl rfl (by decide),
      @inet6 "::1/128" "::1" (List.replicate 15 0 ++ [1]) 128 (by decide) rfl rfl (by decide),
      @inet6 "fc00::/7" "fc00::" (0xfc :: List.replicate 15 0) 7 (by decide) rfl rfl (by decide),
      @inet6 "fd00::/8" "fd00::" (0xfd :: List.replicate 15 0) 8 (by decide) rfl rfl (by decide),
      @inet6 "fe80::/10" "fe80::" (0xfe :: 0x80 :: List.replicate 14 0) 10 (by decide) rfl rfl
        (by decide),
      @inet "224.0.0.0/4" "224.0.0.0" [224, 0, 0, 0] 4 (by decide) rfl rfl (by decide),
      @inet6 "ff00::/8" "ff00::" (0xff :: List.replicate 15 0) 8 (by decide) rfl rfl (by decide),
      @inet "169.254.255.255" "169.254.255.255" [169, 254, 255, 255] 0 (by decide) rfl rfl
        (by decide)]
    rfl
  rw [← texts, List.foldl_map]
  rfl

/-- **The constructor** leaves the tables intact. -/
theorem intact_construct (reads : ReadsReserved pton) : Intact (construct pton) := by
  have sized : ∀ e ∈ reservedAddrs, Sized e.2 := by
    unfold Sized
    decide
  rw [construct_eq reads]
  refine intact_adds intact_empty sized (fun s kept => absurd ?_ kept) (by decide +kernel)
  rw [stored_of_holds holds_empty]

end

/-! ## An address with and without an interface -/

/-- The texts of the constructor. -/
def reservedPton : Pton where
  inet text := hosts4.findSome? fun e => if e.1.toList = text then some e.2 else none
  inet6 text := hosts6.findSome? fun e => if e.1.toList = text then some e.2 else none

theorem reservedPton_reads : ReadsReserved reservedPton := ⟨by decide, by decide⟩

theorem lanHost_sized : Sized lanHost := by
  unfold Sized
  decide

end NetifyAgent.AddressRemoval
