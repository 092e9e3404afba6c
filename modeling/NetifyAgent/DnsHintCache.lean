import NetifyAgent.Flow
import NetifyAgent.Lib.Index
import NetifyAgent.RadixNetworks

/-! `ndDNSHintCache`. A map from the digest of an address to a host name and a
deadline. Insertion and a successful lookup set the deadline, only a purge
removes, and only what is past its deadline. -/
namespace NetifyAgent
open NetifyAgent.Index

/-- `nd_dns_tuple`. -/
structure DnsTuple where
  deadline : Nat
  hostname : List UInt8
  deriving DecidableEq, Repr

/-- `ndDNSHintCache`, without its lock. -/
structure DnsHintCache where
  mapAr : AList fun _ : List UInt8 => DnsTuple := ∅

namespace DnsHintCache

/-- What the cache takes from its surroundings. -/
structure Surroundings where
  sha1 : List UInt8 → List UInt8
  /-- `addr_types.Classify`. -/
  classify : Addr → AddrType
  /-- `ndGC.ttl_dns_entry`. -/
  ttlDnsEntry : Nat

/-- An address the cache looks at: an IP address and no network. -/
def isHost (addr : Addr) : Bool := addr.isValid && addr.isIP && !addr.isNetwork

/-- `Insert(addr, hostname)` at a time. -/
def insert (s : Surroundings) (now : Nat) (addr : Addr) (hostname : List UInt8)
    (c : DnsHintCache) : DnsHintCache :=
  if isHost addr = false then c
  else if s.classify addr ≠ .atOther then c
  else
    let digest := s.sha1 addr.getAddress
    match c.mapAr.lookup digest with
    | none => { c with mapAr := c.mapAr.insert digest ⟨now + s.ttlDnsEntry, hostname⟩ }
    | some ar =>
      { c with mapAr := c.mapAr.insert digest { ar with deadline := now + s.ttlDnsEntry } }

/-- `Lookup(digest, hostname)` at a time: the name it found. -/
def lookupDigest (s : Surroundings) (now : Nat) (digest : List UInt8) (c : DnsHintCache) :
    DnsHintCache × Option (List UInt8) :=
  match c.mapAr.lookup digest with
  | none => (c, none)
  | some ar =>
    ({ c with mapAr := c.mapAr.insert digest { ar with deadline := now + s.ttlDnsEntry } },
      some ar.hostname)

/-- `Lookup(addr, hostname)`. -/
def lookup (s : Surroundings) (now : Nat) (addr : Addr) (c : DnsHintCache) :
    DnsHintCache × Option (List UInt8) :=
  if isHost addr = false then (c, none) else c.lookupDigest s now (s.sha1 addr.getAddress)

/-- `Purge`: erases what is past its deadline, and counts it. -/
def purge (now : Nat) (c : DnsHintCache) : DnsHintCache × Nat :=
  let left := c.mapAr.entries.filter fun e => ¬ e.2.deadline < now
  ({ c with mapAr := ⟨left, c.mapAr.nodupKeys.sublist List.filter_sublist⟩ },
    c.mapAr.entries.length - left.length)

/-! ## The map under each operation -/

section
variable {s : Surroundings} {c : DnsHintCache} {now : Nat} {addr : Addr} {k digest : List UInt8}
  {host : List UInt8} {ar : DnsTuple}

/-- The entry a digest has once it was inserted or found. -/
def refreshed (s : Surroundings) (now : Nat) (host : List UInt8) : Option DnsTuple → DnsTuple
  | none => ⟨now + s.ttlDnsEntry, host⟩
  | some ar => { ar with deadline := now + s.ttlDnsEntry }

theorem lookup_insert (accepted : isHost addr = true) (other : s.classify addr = .atOther) :
    (c.insert s now addr host).mapAr.lookup k =
      if k = s.sha1 addr.getAddress then
        some (refreshed s now host (c.mapAr.lookup (s.sha1 addr.getAddress)))
      else c.mapAr.lookup k := by
  unfold insert
  rw [if_neg (by simp [accepted]), if_neg (not_not.mpr other)]
  simp only
  split
  · rename_i found
    simp only [found, refreshed]
    split
    · rename_i same
      rw [same, AList.lookup_insert]
    · rename_i apart
      rw [AList.lookup_insert_ne apart]
  · rename_i ar found
    simp only [found, refreshed]
    split
    · rename_i same
      rw [same, AList.lookup_insert]
    · rename_i apart
      rw [AList.lookup_insert_ne apart]

theorem lookup_lookupDigest (found : c.mapAr.lookup digest = some ar) :
    (c.lookupDigest s now digest).1.mapAr.lookup k =
      if k = digest then some { ar with deadline := now + s.ttlDnsEntry }
      else c.mapAr.lookup k := by
  unfold lookupDigest
  simp only [found]
  split
  · rename_i same
    rw [same, AList.lookup_insert]
  · rename_i apart
    rw [AList.lookup_insert_ne apart]

theorem lookup_purge : (c.purge now).1.mapAr.lookup k =
    (c.mapAr.lookup k).filter fun ar => ¬ ar.deadline < now := by
  apply Option.ext
  intro ar
  have inner : (c.purge now).1.mapAr.lookup k = some ar ↔
      ⟨k, ar⟩ ∈ (c.purge now).1.mapAr.entries := AList.mem_lookup_iff
  have outer : c.mapAr.lookup k = some ar ↔ ⟨k, ar⟩ ∈ c.mapAr.entries := AList.mem_lookup_iff
  rw [inner, Option.filter_eq_some_iff, outer]
  simp only [purge, List.mem_filter]

end

end DnsHintCache

end NetifyAgent
