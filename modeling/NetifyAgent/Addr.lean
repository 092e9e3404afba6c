import Mathlib.Data.List.Basic

/-! `ndAddr`: one sockaddr union for IPv4, IPv6 and Ethernet addresses. The
members overlap, so an address that is created again with another family keeps
the bytes the new member does not write: `sin_addr` is the `sin6_flowinfo` of
the same storage and `sll_addr` lies inside `sin6_addr`. -/
namespace NetifyAgent

/-- `ss_family`. -/
inductive Family where
  | unspec
  | packet
  | inet
  | inet6
  deriving DecidableEq, Repr

/-- `ndAddr`, the sockaddr union by the ranges its members share. -/
structure Addr where
  /-- `ss.ss_family`, bytes 0 and 1 of every member. -/
  family : Family := .unspec
  /-- `in.sin_port` and `in6.sin6_port`, bytes 2 and 3, as a little-endian
  machine loads them: the port is kept in network byte order. -/
  port : Nat := 0
  /-- Bytes 4 to 7: `in.sin_addr`, which is `in6.sin6_flowinfo`. -/
  sinAddr : List UInt8 := [0, 0, 0, 0]
  /-- Bytes 8 to 23: `in6.sin6_addr`; `ll.sll_addr` starts at its byte 4. -/
  sin6Addr : List UInt8 := List.replicate 16 0
  /-- `prefix`. -/
  prefixLen : Nat := 0
  deriving DecidableEq, Repr

/-- `ntohs` on a little-endian machine. -/
def ntohs (n : Nat) : Nat := n % 256 * 256 + n / 256 % 256

/-- `ndAddr::Create(a, hw_addr, ETH_ALEN)`: `sll_hatype`, `sll_halen` and
`sll_addr` are written, the bytes around them stay. -/
def Addr.createHw (a : Addr) (hwAddr : List UInt8) : Addr :=
  { a with
    family := .packet
    sin6Addr := [1, 0] ++ (a.sin6Addr.drop 2).take 1 ++ [6] ++ hwAddr ++ a.sin6Addr.drop 10 }

/-- `ndAddr::Create(a, in_addr)` with the default prefix. -/
def Addr.createIn (a : Addr) (inAddr : List UInt8) : Addr :=
  { a with family := .inet, port := 0, sinAddr := inAddr, prefixLen := 32 }

/-- `ndAddr::Create(a, in6_addr)` with the default prefix. -/
def Addr.createIn6 (a : Addr) (in6Addr : List UInt8) : Addr :=
  { a with family := .inet6, port := 0, sin6Addr := in6Addr, prefixLen := 128 }

/-- `addr.ll.sll_addr`, its first six bytes. -/
def Addr.sllAddr (a : Addr) : List UInt8 := (a.sin6Addr.drop 4).take 6

/-- `ndAddr::GetAddress`. -/
def Addr.getAddress (a : Addr) : List UInt8 :=
  match a.family with
  | .inet => a.sinAddr
  | .inet6 => a.sin6Addr
  | _ => []

/-- `ndAddr::GetPort(false)`: the port as it is stored. -/
def Addr.getPortRaw (a : Addr) : Nat :=
  match a.family with
  | .inet | .inet6 => a.port
  | _ => 0

/-- `ndAddr::GetPort()`. -/
def Addr.getPort (a : Addr) : Nat := ntohs a.getPortRaw

/-- `ndAddr::SetPort`. -/
def Addr.setPort (a : Addr) (port : Nat) : Addr :=
  match a.family with
  | .inet | .inet6 => { a with port }
  | _ => a

/-- The endpoint an address stands for: the address bytes and the stored port. -/
def Addr.endpoint (a : Addr) : List UInt8 × Nat := (a.getAddress, a.getPortRaw)

section
variable (a : Addr) (bytes : List UInt8) (port : Nat)

@[simp] theorem Addr.createIn_family : (a.createIn bytes).family = .inet := rfl
@[simp] theorem Addr.createIn_sinAddr : (a.createIn bytes).sinAddr = bytes := rfl
@[simp] theorem Addr.createIn_port : (a.createIn bytes).port = 0 := rfl
@[simp] theorem Addr.createIn6_family : (a.createIn6 bytes).family = .inet6 := rfl
@[simp] theorem Addr.createIn6_sin6Addr : (a.createIn6 bytes).sin6Addr = bytes := rfl
@[simp] theorem Addr.createIn6_port : (a.createIn6 bytes).port = 0 := rfl

@[simp] theorem Addr.setPort_family : (a.setPort port).family = a.family := by
  simp only [Addr.setPort]; split <;> rfl

@[simp] theorem Addr.setPort_sinAddr : (a.setPort port).sinAddr = a.sinAddr := by
  simp only [Addr.setPort]; split <;> rfl

@[simp] theorem Addr.setPort_sin6Addr : (a.setPort port).sin6Addr = a.sin6Addr := by
  simp only [Addr.setPort]; split <;> rfl

/-- A hardware address reads back, whatever the storage held before. -/
theorem Addr.sllAddr_createHw (width : bytes.length = 6) (room : 3 ≤ a.sin6Addr.length) :
    (a.createHw bytes).sllAddr = bytes := by
  have one : ((a.sin6Addr.drop 2).take 1).length = 1 := by simp; omega
  obtain ⟨kept, single⟩ := List.length_eq_one_iff.mp one
  simp [Addr.sllAddr, Addr.createHw, single, ← width]

/-- Ethernet storage keeps its sixteen bytes. -/
theorem Addr.createHw_room (width : bytes.length = 6) (room : a.sin6Addr.length = 16) :
    (a.createHw bytes).sin6Addr.length = 16 := by
  simp [Addr.createHw, width, room]

end

end NetifyAgent
