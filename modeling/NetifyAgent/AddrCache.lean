import NetifyAgent.Conntrack
import NetifyAgent.Lib.Runs
import NetifyAgent.NetworkTexts

/-! The text that an `ndAddr` keeps of itself. `GetString` looks at the flags and at
whether there is a text; no call that writes to the address takes the text away. -/
namespace NetifyAgent
open Runs

/-! ## Overloads -/

namespace Addr

/-- `ndAddr::Create(a, hw_addr, length)` and whether it succeeds. -/
def createHwLength (a : Addr) (hwAddr : List UInt8) : Addr × Bool :=
  if hwAddr.length = 6 then (a.createHw hwAddr, true) else (a, false)

/-- `memcpy` of a `sockaddr_in`, which ends with `sin_zero`. -/
def copyIn (a : Addr) (ss : SockAddr) : Addr :=
  { a with
    family := .inet
    port := ss.port.toNat
    sinAddr := ss.sinAddr.toList
    sin6Addr := ss.sin6Addr.toList.take 8 ++ a.sin6Addr.drop 8 }

/-- `memcpy` of a `sockaddr_in6`. -/
def copyIn6 (a : Addr) (ss : SockAddr) : Addr :=
  { a with
    family := .inet6
    port := ss.port.toNat
    sinAddr := ss.sinAddr.toList
    sin6Addr := ss.sin6Addr.toList }

/-- A prefix length of zero stands for the width. -/
def withPrefix (a : Addr) (width : Nat) (prefixLen : UInt8) : Addr :=
  { a with prefixLen := if prefixLen = 0 then width else prefixLen.toNat }

/-- `ndAddr::Create(a, ss_addr, prefix)`. -/
def createStorage (a : Addr) (ss : SockAddr) (prefixLen : UInt8) : Addr × Bool :=
  if ss.family = afInet then
    if 32 < prefixLen.toNat then (a, false) else ((a.copyIn ss).withPrefix 32 prefixLen, true)
  else if ss.family = afInet6 then
    if 128 < prefixLen.toNat then (a, false) else ((a.copyIn6 ss).withPrefix 128 prefixLen, true)
  else (a, false)

/-- `ndAddr::Create(a, ss_in, prefix)`. -/
def createSockIn (a : Addr) (ss : SockAddr) (prefixLen : UInt8) : Addr × Bool :=
  if ss.family ≠ afInet then (a, false)
  else if 32 < prefixLen.toNat then (a, false)
  else ((a.copyIn ss).withPrefix 32 prefixLen, true)

/-- `ndAddr::Create(a, ss_in6, prefix)`. -/
def createSockIn6 (a : Addr) (ss : SockAddr) (prefixLen : UInt8) : Addr × Bool :=
  if ss.family ≠ afInet6 then (a, false)
  else if 128 < prefixLen.toNat then (a, false)
  else ((a.copyIn6 ss).withPrefix 128 prefixLen, true)

/-- `ndAddr::Create(a, in_addr, prefix)`. -/
def createInPrefix (a : Addr) (inAddr : Vector UInt8 4) (prefixLen : UInt8) : Addr × Bool :=
  if 32 < prefixLen.toNat then (a, false)
  else ((a.createIn inAddr.toList).withPrefix 32 prefixLen, true)

/-- `ndAddr::Create(a, in6_addr, prefix)`. -/
def createIn6Prefix (a : Addr) (in6Addr : Vector UInt8 16) (prefixLen : UInt8) : Addr × Bool :=
  if 128 < prefixLen.toNat then (a, false)
  else ((a.createIn6 in6Addr.toList).withPrefix 128 prefixLen, true)

end Addr

namespace AddrCache

/-! ## Calls -/

/-- A call that writes to an address. -/
inductive AddrWrite where
  | text (addr : List Char)
  | hw (hwAddr : List UInt8)
  | storage (ss : SockAddr) (prefixLen : UInt8)
  | sockIn (ss : SockAddr) (prefixLen : UInt8)
  | sockIn6 (ss : SockAddr) (prefixLen : UInt8)
  | inAddr (bytes : Vector UInt8 4) (prefixLen : UInt8)
  | in6Addr (bytes : Vector UInt8 16) (prefixLen : UInt8)
  | setPort (n : UInt16)
  deriving DecidableEq, Repr

/-- What a call leaves, whether it succeeds or not. -/
def AddrWrite.apply (pton : Pton) (a : Addr) : AddrWrite → Addr
  | .text addr => (a.createText pton addr).1
  | .hw hwAddr => (a.createHwLength hwAddr).1
  | .storage ss prefixLen => (a.createStorage ss prefixLen).1
  | .sockIn ss prefixLen => (a.createSockIn ss prefixLen).1
  | .sockIn6 ss prefixLen => (a.createSockIn6 ss prefixLen).1
  | .inAddr bytes prefixLen => (a.createInPrefix bytes prefixLen).1
  | .in6Addr bytes prefixLen => (a.createIn6Prefix bytes prefixLen).1
  | .setPort n => a.setPort n.toNat

/-- An `ndAddr` with the text that it keeps. -/
structure CachedAddr where
  addr : Addr := {}
  cachedFlags : UInt8 := 0
  cachedAddr : List Char := []
  deriving DecidableEq, Repr

/-- `ndAddr::GetString`; `MakeString` leaves the text alone where it fails. -/
def CachedAddr.getString (ntop : Ntop) (a : CachedAddr) (flags : UInt8) :
    CachedAddr × List Char :=
  if flags ≠ a.cachedFlags ∨ a.cachedAddr = [] then
    let text := (a.addr.makeString ntop flags.toNat).getD a.cachedAddr
    ({ a with cachedFlags := flags, cachedAddr := text }, text)
  else (a, a.cachedAddr)

inductive Call where
  | write (w : AddrWrite)
  | getString (flags : UInt8)
  deriving DecidableEq, Repr

def step (pton : Pton) (ntop : Ntop) (a : CachedAddr) : Call → Option CachedAddr
  | .write w => some { a with addr := w.apply pton a.addr }
  | .getString flags => some (a.getString ntop flags).1

/-- `ndAddr(prefix)`. -/
def fresh (prefixLen : UInt8) : CachedAddr := { addr := { prefixLen := prefixLen.toNat } }

/-! ## Coherence -/

/-- `GetString` returns the text that `MakeString` makes of a valid address. -/
def Coherent (ntop : Ntop) (a : CachedAddr) : Prop :=
  a.addr.isValid = true → ∀ flags text, a.addr.makeString ntop flags.toNat = some text →
    (a.getString ntop flags).2 = text

/-- Two addresses have the same family, and of what is printed for it the same bytes and,
with some flags, the same prefix length and port. -/
structure SamePrinted (flags : Nat) (a b : Addr) : Prop where
  family : a.family = b.family
  packet : a.family = .packet → a.sin6Addr = b.sin6Addr
  inet : a.family = .inet → a.sinAddr = b.sinAddr ∧ a.suffix flags 32 = b.suffix flags 32
  inet6 : a.family = .inet6 → a.sin6Addr = b.sin6Addr ∧ a.suffix flags 128 = b.suffix flags 128

instance (flags : Nat) (a b : Addr) : Decidable (SamePrinted flags a b) :=
  decidable_of_iff ((a.family = b.family ∧ (a.family = .packet → a.sin6Addr = b.sin6Addr)) ∧
    (a.family = .inet → a.sinAddr = b.sinAddr ∧ a.suffix flags 32 = b.suffix flags 32) ∧
    (a.family = .inet6 → a.sin6Addr = b.sin6Addr ∧ a.suffix flags 128 = b.suffix flags 128))
    ⟨fun h => ⟨h.1.1, h.1.2, h.2.1, h.2.2⟩, fun h => ⟨⟨h.family, h.packet⟩, h.inet, h.inet6⟩⟩

/-- While a text is kept no call changes what is printed with the flags it was made for. -/
def Unprinted (pton : Pton) (a : CachedAddr) : Call → Prop
  | .write w => a.cachedAddr = [] ∨
      SamePrinted a.cachedFlags.toNat (w.apply pton a.addr) a.addr
  | .getString _ => True

instance (pton : Pton) : DecidableRel (Unprinted pton)
  | a, .write w => inferInstanceAs (Decidable (a.cachedAddr = [] ∨
      SamePrinted a.cachedFlags.toNat (w.apply pton a.addr) a.addr))
  | _, .getString _ => .isTrue trivial

/-- A kept text is the one that is made with the kept flags. -/
def Kept (ntop : Ntop) (a : CachedAddr) : Prop :=
  a.cachedAddr ≠ [] → ∀ text, a.addr.makeString ntop a.cachedFlags.toNat = some text →
    a.cachedAddr = text

section
variable {pton : Pton} {ntop : Ntop} {a : CachedAddr}

theorem valid_of_makeString {addr : Addr} {flags : Nat} {text : List Char}
    (made : addr.makeString ntop flags = some text) : addr.isValid = true := by
  unfold Addr.makeString at made
  unfold Addr.isValid
  cases kind : addr.family with
  | unspec =>
    rw [kind] at made
    cases made
  | packet => rfl
  | inet => rfl
  | inet6 => rfl

theorem coherent_iff : Coherent ntop a ↔ Kept ntop a := by
  constructor
  · intro coherent present text made
    have returned := coherent (valid_of_makeString made) a.cachedFlags text made
    rwa [CachedAddr.getString, if_neg (by simpa using present)] at returned
  · intro kept _ flags text made
    unfold CachedAddr.getString
    by_cases stale : flags ≠ a.cachedFlags ∨ a.cachedAddr = []
    · rw [if_pos stale, made]
      rfl
    · rw [if_neg stale]
      obtain ⟨same, present⟩ := not_or.mp stale
      rw [not_not] at same
      subst same
      exact kept present text made

/-- The same is printed of addresses that look the same. -/
theorem makeString_samePrinted {flags : Nat} {x y : Addr} (same : SamePrinted flags x y) :
    x.makeString ntop flags = y.makeString ntop flags := by
  unfold Addr.makeString
  rw [← same.family]
  cases kind : x.family with
  | unspec => rfl
  | packet => rw [same.packet kind]
  | inet =>
    obtain ⟨bytes, suffix⟩ := same.inet kind
    rw [bytes, suffix]
  | inet6 =>
    obtain ⟨bytes, suffix⟩ := same.inet6 kind
    rw [bytes, suffix]

/-- A text that is made is the one that is kept. -/
theorem kept_getString (kept : Kept ntop a) (flags : UInt8) :
    Kept ntop (a.getString ntop flags).1 := by
  unfold CachedAddr.getString
  by_cases stale : flags ≠ a.cachedFlags ∨ a.cachedAddr = []
  · rw [if_pos stale]
    intro _ text made
    exact (congrArg (·.getD a.cachedAddr) made).trans (Option.getD_some ..)
  · rw [if_neg stale]
    exact kept

theorem kept_step (kept : Kept ntop a) {call : Call} {b : CachedAddr}
    (taken : step pton ntop a call = some b) (unprinted : Unprinted pton a call) :
    Kept ntop b := by
  cases call with
  | getString flags =>
    obtain rfl := Option.some.inj taken
    exact kept_getString kept flags
  | write w =>
    obtain rfl := Option.some.inj taken
    intro present text made
    rcases unprinted with absent | same
    · exact absurd absent present
    · rw [makeString_samePrinted same] at made
      exact kept present text made

end

/-- **The kept text** is the one of the address as long as no call changes what is printed
while a text is kept. -/
theorem coherent_reached {pton : Pton} {ntop : Ntop} {prefixLen : UInt8} {a : CachedAddr}
    (reached : Reaches (step pton ntop) (Unprinted pton) (fresh prefixLen) a) :
    Coherent ntop a :=
  coherent_iff.mpr (reached.invariant (fun present => absurd rfl present) fun _ _ _ kept taken
    unprinted => kept_step kept taken unprinted)

/-! ## Runs -/

open NetworkTexts (plainPton plainNtop)

/-- An address that is printed, and then has its port set. -/
theorem port_unprinted : ∃ a,
    Reaches (step plainPton plainNtop) (Unprinted plainPton) (fresh 0) a ∧
      a.cachedAddr = "10.0.0.1".toList ∧ Coherent plainNtop a := by
  have found : (exec (step plainPton plainNtop) (Unprinted plainPton) (fresh 0)
      [.write (.inAddr #v[10, 0, 0, 1] 0), .getString 0, .write (.setPort 80)]).any
      (fun a => a.cachedAddr = "10.0.0.1".toList) = true := by
    decide +kernel
  obtain ⟨a, reached, printed⟩ := reached_of_exec found
  exact ⟨a, reached, of_decide_eq_true printed, coherent_reached reached⟩

/-- An address that is printed and then created again is printed as before. -/
theorem created_again : ∃ a,
    Reaches (step plainPton plainNtop) Always (fresh 0) a ∧ ¬ Coherent plainNtop a := by
  have found : (exec (step plainPton plainNtop) Always (fresh 0)
      [.write (.inAddr #v[10, 0, 0, 1] 0), .getString 0,
        .write (.inAddr #v[10, 0, 0, 2] 0)]).any
      (fun a => a.addr.makeString plainNtop 0 = some "10.0.0.2".toList ∧
        (a.getString plainNtop 0).2 = "10.0.0.1".toList) = true := by
    decide +kernel
  obtain ⟨a, reached, printed⟩ := reached_of_exec found
  obtain ⟨made, returned⟩ := of_decide_eq_true printed
  refine ⟨a, reached, fun coherent => ?_⟩
  have same := coherent (valid_of_makeString made) 0 _ made
  rw [returned] at same
  exact absurd same (by decide)

end AddrCache

end NetifyAgent
