import NetifyAgent.AddressRemoval
import NetifyAgent.Lib.Lines

/-! The types of hardware addresses. The octets decide first, in an order in which the group
bit comes before the broadcast address, all of whose octets have it set; then the table
decides that is kept by text. A text stands for one address, so that the table is a map of
addresses. -/
namespace NetifyAgent.EthernetTypes
open NdAddrType AddressRemoval Lines

/-! ## Calls -/

/-- The tables after some calls. -/
def after (pton : Pton) (calls : List Call) : NdAddrType :=
  calls.foldl (fun types call => (step types call).getD types) (construct pton)

/-- What a call registers for a hardware address: the first type stays until it is removed. -/
def register (known : List UInt8 → Option AddrType) : Call → List UInt8 → Option AddrType
  | .addAddress _ type addr _ =>
    if addr.isEthernet = true ∧ known addr.sllAddr = none then
      Function.update known addr.sllAddr (some type)
    else known
  | .removeAddress addr _ =>
    if addr.isEthernet then Function.update known addr.sllAddr none else known

/-- What is registered after some calls. -/
def registered (calls : List Call) : List UInt8 → Option AddrType :=
  calls.foldl register fun _ => none

/-- The type of a hardware address. -/
def expected (known : List UInt8 → Option AddrType) (mac : List UInt8) : AddrType :=
  if mac = List.replicate 6 0xff then .atBroadcast
  else if (mac.headD 0).toNat % 2 = 1 then .atMulticast
  else if mac = List.replicate 6 0 then .atNone
  else (known mac).getD .atOther

/-! ## Texts -/

/-- The text of a hardware address. -/
def macText (mac : List UInt8) : List Char := [':'].intercalate (mac.map hexByte)

theorem digitChar_inj : ∀ m < 16, ∀ n < 16, Nat.digitChar m = Nat.digitChar n → m = n := by
  decide

theorem hexByte_inj {b c : UInt8} (same : hexByte b = hexByte c) : b = c := by
  have high := b.toNat_lt
  have high' := c.toNat_lt
  obtain ⟨first, rest⟩ := List.cons.inj same
  obtain ⟨second, -⟩ := List.cons.inj rest
  have upper := digitChar_inj _ (by omega) _ (by omega) first
  have lower := digitChar_inj _ (Nat.mod_lt _ (by omega)) _ (Nat.mod_lt _ (by omega)) second
  apply UInt8.toNat_inj.mp
  omega

theorem digitChar_solid : ∀ n < 16, Nat.digitChar n ≠ ':' := by
  decide

theorem colon_notMem (b : UInt8) : ':' ∉ hexByte b := by
  have high := b.toNat_lt
  intro member
  rcases List.mem_cons.mp member with first | rest
  · exact digitChar_solid _ (by omega) first.symm
  · exact digitChar_solid _ (Nat.mod_lt _ (by omega)) (List.mem_singleton.mp rest).symm

/-- **A text stands for one address.** -/
theorem macText_inj {mac mac' : List UInt8} (same : macText mac = macText mac') : mac = mac' := by
  have whole (bytes : List UInt8) : ∀ text ∈ bytes.map hexByte, text ≠ [] ∧ ':' ∉ text := by
    intro text member
    obtain ⟨b, -, rfl⟩ := List.mem_map.mp member
    exact ⟨List.cons_ne_nil _ _, colon_notMem b⟩
  have pieces := congrArg (Lines.pieces ':') same
  rw [macText, macText, pieces_intercalate (whole mac), pieces_intercalate (whole mac')] at pieces
  exact List.map_injective_iff.mpr (fun _ _ => hexByte_inj) pieces

/-! ## The table -/

/-- The table keeps what is registered, under its text. -/
def Keeps (types : NdAddrType) (known : List UInt8 → Option AddrType) : Prop :=
  ∀ mac, types.etherReserved (macText mac) = known mac

section
variable {types : NdAddrType} {known : List UInt8 → Option AddrType} {addr : Addr}

/-- A change under the text of an address. -/
theorem keeps_update (keeps : Keeps types known) (mac : List UInt8) (value : Option AddrType) :
    Keeps { types with etherReserved := Function.update types.etherReserved (macText mac) value }
      (Function.update known mac value) := by
  intro mac'
  by_cases same : mac' = mac
  · subst same
    simp only [Function.update_self]
  · have other : macText mac' ≠ macText mac := fun texts => same (macText_inj texts)
    simp only [Function.update_of_ne same, Function.update_of_ne other]
    exact keeps mac'

theorem valid_of_ethernet (ethernet : addr.isEthernet = true) : addr.isValid = true := by
  simp only [Addr.isEthernet, Bool.and_eq_true, beq_iff_eq] at ethernet
  simp [Addr.isValid, ethernet.1.1]

/-- Other addresses leave the table alone. -/
theorem etherReserved_addAddress (other : addr.isEthernet = false) (order : List (List Char))
    (type : AddrType) (ifname : List Char) :
    (types.addAddress order type addr ifname).1.etherReserved = types.etherReserved := by
  unfold addAddress
  rw [other]
  split
  · rfl
  · simp only [Bool.false_eq_true, if_false]
    split
    · split <;> rfl
    · split
      · split <;> rfl
      · split
        · rfl
        · split <;> rfl

theorem etherReserved_removeAddress (other : addr.isEthernet = false) (ifname : List Char) :
    (types.removeAddress addr ifname).1.etherReserved = types.etherReserved := by
  unfold removeAddress
  rw [other]
  split
  · rfl
  · simp only [Bool.false_eq_true, if_false]
    split
    · rfl
    · split
      · rfl
      · split
        · rfl
        · split <;> rfl

/-- **A call** changes the table as it changes what is registered. -/
theorem keeps_step (keeps : Keeps types known) (call : Call) :
    Keeps ((step types call).getD types) (register known call) := by
  cases call with
  | addAddress order type addr ifname =>
    simp only [step, Option.getD_some, register]
    cases ethernet : addr.isEthernet with
    | false =>
      rw [if_neg (by simp), Keeps, etherReserved_addAddress ethernet]
      exact keeps
    | true =>
      have here : types.etherReserved addr.macString = known addr.sllAddr := keeps addr.sllAddr
      unfold addAddress
      simp only [valid_of_ethernet ethernet, not_true_eq_false, if_false, ethernet, if_true,
        true_and]
      cases found : known addr.sllAddr with
      | none =>
        rw [found] at here
        simp only [here, if_true]
        exact keeps_update keeps addr.sllAddr (some type)
      | some type' =>
        rw [found] at here
        simp only [here, reduceCtorEq, if_false]
        exact keeps
  | removeAddress addr ifname =>
    simp only [step, Option.getD_some, register]
    cases ethernet : addr.isEthernet with
    | false =>
      rw [if_neg (by simp), Keeps, etherReserved_removeAddress ethernet]
      exact keeps
    | true =>
      have here : types.etherReserved addr.macString = known addr.sllAddr := keeps addr.sllAddr
      unfold removeAddress
      simp only [valid_of_ethernet ethernet, not_true_eq_false, if_false, ethernet, if_true]
      cases found : known addr.sllAddr with
      | none =>
        rw [found] at here
        have same : Function.update known addr.sllAddr none = known := by
          rw [← found, Function.update_eq_self]
        simp only [here, same]
        exact keeps
      | some type' =>
        rw [found] at here
        simp only [here]
        exact keeps_update keeps addr.sllAddr none

/-- The constructor adds no hardware address. -/
theorem ofText_reserved {pton : Pton} {text : List Char}
    (other : ¬ (text.length = 17 ∧ (fields ':' 6 text).length = 6)) :
    (Addr.ofText pton text).isEthernet = false := by
  have unspec (a : Addr) (family : a.family ≠ .packet) : a.isEthernet = false := by
    simp [Addr.isEthernet, family]
  apply unspec
  unfold Addr.ofText Addr.createText
  simp only
  split
  · simp
  · split
    · split <;> simp
    · split
      · split <;> simp
      · split
        · rw [if_neg other]
          simp
        · simp

theorem keeps_construct (pton : Pton) : Keeps (construct pton) fun _ => none := by
  have texts : ∀ e ∈ reservedNetworks,
      ¬ (e.2.toList.length = 17 ∧ (fields ':' 6 e.2.toList).length = 6) := by
    decide
  have adds (calls : List (AddrType × String)) (part : ∀ e ∈ calls, e ∈ reservedNetworks)
      (types : NdAddrType) (keeps : Keeps types fun _ => none) :
      Keeps (calls.foldl (fun types call =>
        (types.addAddress [] call.1 (Addr.ofText pton call.2.toList) []).1) types) fun _ => none := by
    induction calls generalizing types with
    | nil => exact keeps
    | cons call calls ih =>
      have other : (Addr.ofText pton call.2.toList).isEthernet = false :=
        ofText_reserved (texts call (part call (List.mem_cons_self ..)))
      apply ih fun e member => part e (List.mem_cons_of_mem _ member)
      rw [Keeps, etherReserved_addAddress other]
      exact keeps
  exact adds reservedNetworks (fun _ member => member) {} fun _ => rfl

/-- **The table** after some calls keeps what they registered. -/
theorem keeps_after (pton : Pton) (calls : List Call) :
    Keeps (after pton calls) (registered calls) := by
  have runs (types : NdAddrType) (known : List UInt8 → Option AddrType) (keeps : Keeps types known) :
      Keeps (calls.foldl (fun types call => (step types call).getD types) types)
        (calls.foldl register known) := by
    induction calls generalizing types known with
    | nil => exact keeps
    | cons call calls ih => exact ih _ _ (keeps_step keeps call)
  exact runs _ _ (keeps_construct pton)

end

/-! ## Classification -/

/-- Eight masks find what the first one finds. -/
theorem masks_iff (first : Nat) :
    ([1, 3, 5, 7, 9, 11, 13, 15].any fun i => i &&& first == i) = true ↔ first % 2 = 1 := by
  constructor
  · intro found
    obtain ⟨i, member, same⟩ := List.any_eq_true.mp found
    have odd : i % 2 = 1 := by
      simp only [List.mem_cons, List.not_mem_nil, or_false] at member
      omega
    have bit := congrArg (Nat.testBit · 0) (beq_iff_eq.mp same)
    simpa [Nat.testBit_and, odd] using bit
  · intro odd
    refine List.any_eq_true.mpr ⟨1, List.mem_cons_self .., ?_⟩
    rw [beq_iff_eq, Nat.one_and_eq_mod_two, odd]

theorem classifyEthernet_eq (types : NdAddrType) (addr : Addr) : types.classifyEthernet addr =
    if (addr.sllAddr.headD 0).toNat % 2 = 1 then .atMulticast
    else if addr.sllAddr = List.replicate 6 0xff then .atBroadcast
    else if addr.sllAddr = List.replicate 6 0 then .atNone
    else (types.etherReserved addr.macString).getD .atOther := by
  unfold classifyEthernet
  simp only [masks_iff]

/-- **`Classify`** of a hardware address is right exactly if it is not the broadcast address. -/
theorem classify_ethernet_iff (pton : Pton) (calls : List Call) {addr : Addr}
    (ethernet : addr.isEthernet = true) :
    (after pton calls).classify addr = expected (registered calls) addr.sllAddr ↔
      addr.sllAddr ≠ List.replicate 6 0xff := by
  have answer : (after pton calls).classify addr = (after pton calls).classifyEthernet addr := by
    unfold classify
    simp [valid_of_ethernet ethernet, ethernet]
  have here : (after pton calls).etherReserved addr.macString = registered calls addr.sllAddr :=
    keeps_after pton calls addr.sllAddr
  rw [answer, classifyEthernet_eq, expected, here]
  by_cases broadcast : addr.sllAddr = List.replicate 6 0xff
  · have group : ((List.replicate 6 (0xff : UInt8)).headD 0).toNat % 2 = 1 := by decide
    rw [broadcast, if_pos group, if_pos rfl]
    simp
  · rw [if_neg broadcast, if_neg broadcast]
    exact iff_of_true rfl broadcast

/-- A hardware address. -/
def station : Addr := ({} : Addr).createHw [2, 0, 0, 0, 0, 1]

/-- The type that was registered is the answer. -/
theorem station_registered : (after reservedPton [.addAddress [] .atLocal station []]).classify
    station = expected (registered [.addAddress [] .atLocal station []]) station.sllAddr :=
  (classify_ethernet_iff reservedPton _ (by decide)).mpr (by decide)

/-- The broadcast address is taken for a multicast address. -/
theorem broadcast_multicast :
    (construct reservedPton).classify (({} : Addr).createHw (List.replicate 6 0xff)) = .atMulticast ∧
      expected (registered []) (List.replicate 6 0xff) = .atBroadcast := by
  decide +kernel

end NetifyAgent.EthernetTypes
