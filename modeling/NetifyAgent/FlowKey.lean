import NetifyAgent.Flow

/-! The key of a flow: what `ndFlow::Hash` makes the digest of. The encoding has
no separators and no lengths, but each key has one of three sizes and starts
with its version, so that two encodings behind tags of any lengths, other than
those that differ as an IPv4 key does from an IPv6 key, are those of one key. -/
namespace NetifyAgent
open NetifyAgent.Bytes

/-- The key of a flow. An endpoint is an address and a stored port. -/
structure FlowKey where
  ipVersion : Nat
  ipProtocol : Nat
  vlanId : Nat
  lower : List UInt8 × Nat
  upper : List UInt8 × Nat
  lowerMac : List UInt8
  deriving DecidableEq, Repr

def Flow.key (flow : Flow) : FlowKey where
  ipVersion := flow.ipVersion
  ipProtocol := flow.ipProtocol
  vlanId := flow.vlanId
  lower := flow.lowerAddr.endpoint
  upper := flow.upperAddr.endpoint
  lowerMac := flow.lowerMac.sllAddr

/-- Two flows have the addresses of their IP version. -/
def Flow.Typed (flow : Flow) : Prop :=
  (flow.ipVersion = 4 ∧ flow.lowerAddr.family = .inet ∧ flow.upperAddr.family = .inet) ∨
    (flow.ipVersion = 6 ∧ flow.lowerAddr.family = .inet6 ∧ flow.upperAddr.family = .inet6)

namespace FlowKey

/-- A host without an address talks to all others. -/
def Broadcast (k : FlowKey) : Prop :=
  k.ipVersion = 4 ∧ k.lower.1 = [0, 0, 0, 0] ∧ k.upper.1 = [255, 255, 255, 255]

instance (k : FlowKey) : Decidable k.Broadcast := inferInstanceAs (Decidable (_ ∧ _ ∧ _))

/-- The hardware address as far as it is hashed. -/
def mac (k : FlowKey) : List UInt8 := if k.Broadcast then k.lowerMac else []

def encode (k : FlowKey) : List UInt8 :=
  [UInt8.ofNat k.ipVersion, UInt8.ofNat k.ipProtocol] ++ (leBytes16 k.vlanId ++ (k.lower.1 ++
    (k.upper.1 ++ (k.mac ++ (leBytes16 k.lower.2 ++ leBytes16 k.upper.2)))))

end FlowKey

/-- What is hashed of a flow is the tag and its key. -/
theorem Flow.hashStream_key {flow : Flow} (typed : flow.Typed) (device : List UInt8) :
    flow.hashStream device = device ++ flow.key.encode := by
  unfold Flow.hashStream Flow.hashAddrs FlowKey.encode FlowKey.mac FlowKey.Broadcast
  rcases typed with ⟨version, lower, upper⟩ | ⟨version, lower, upper⟩
  · simp only [Flow.key, Addr.endpoint, Addr.getAddress, version, lower, upper, true_and]
    split <;> simp
  · simp [Flow.key, Addr.endpoint, Addr.getAddress, version, lower, upper]

namespace FlowKey

/-- The size of an address. -/
def addrLen (k : FlowKey) : Nat := if k.ipVersion = 4 then 4 else 16

/-- A key of an IP packet. -/
structure Valid (k : FlowKey) : Prop where
  version : k.ipVersion = 4 ∨ k.ipVersion = 6
  protocol : k.ipProtocol < 256
  vlanId : k.vlanId < 65536
  lower : k.lower.1.length = k.addrLen ∧ k.lower.2 < 65536
  upper : k.upper.1.length = k.addrLen ∧ k.upper.2 < 65536
  lowerMac : k.lowerMac.length = 6

variable {k k' : FlowKey} {device device' : List UInt8}

theorem Valid.mac_length (valid : k.Valid) :
    k.mac.length = if k.Broadcast then 6 else 0 := by
  unfold mac
  split
  · exact valid.lowerMac
  · rfl

theorem Valid.encode_length (valid : k.Valid) :
    k.encode.length = 8 + 2 * k.addrLen + if k.Broadcast then 6 else 0 := by
  unfold encode
  simp only [List.length_append, leBytes16_length, valid.lower.1, valid.upper.1, valid.mac_length,
    List.length_cons, List.length_nil]
  omega

theorem ofNat_inj {a b : Nat} (first : a < 256) (second : b < 256)
    (same : UInt8.ofNat a = UInt8.ofNat b) : a = b := by
  have bytes := congrArg UInt8.toNat same
  simp only [UInt8.toNat_ofNat'] at bytes
  omega

/-- Keys with one encoding agree on everything that is hashed. -/
theorem encode_inj (valid : k.Valid) (valid' : k'.Valid) (same : k.encode = k'.encode) :
    k.ipVersion = k'.ipVersion ∧ k.ipProtocol = k'.ipProtocol ∧ k.vlanId = k'.vlanId ∧
      k.lower = k'.lower ∧ k.upper = k'.upper ∧ k.mac = k'.mac := by
  unfold encode at same
  obtain ⟨head, same⟩ := List.append_inj same rfl
  obtain ⟨vlan, same⟩ := List.append_inj same rfl
  simp only [List.cons.injEq, and_true] at head
  have version : k.ipVersion = k'.ipVersion := by
    refine ofNat_inj ?_ ?_ head.1
    · rcases valid.version with four | six <;> omega
    · rcases valid'.version with four | six <;> omega
  have width : k.addrLen = k'.addrLen := by rw [addrLen, addrLen, version]
  obtain ⟨lower, same⟩ := List.append_inj same (by rw [valid.lower.1, valid'.lower.1, width])
  obtain ⟨upper, same⟩ := List.append_inj same (by rw [valid.upper.1, valid'.upper.1, width])
  have broadcast : k.Broadcast ↔ k'.Broadcast := by
    unfold Broadcast
    rw [version, lower, upper]
  obtain ⟨mac, same⟩ := List.append_inj same (by
    rw [valid.mac_length, valid'.mac_length]
    simp only [broadcast])
  obtain ⟨lport, uport⟩ := List.append_inj same rfl
  refine ⟨version, ofNat_inj valid.protocol valid'.protocol head.2,
    leBytes16_inj valid.vlanId valid'.vlanId vlan, ?_, ?_, mac⟩
  · exact Prod.ext lower (leBytes16_inj valid.lower.2 valid'.lower.2 lport)
  · exact Prod.ext upper (leBytes16_inj valid.upper.2 valid'.upper.2 uport)

/-- The encoding of a broadcast has no version where a shorter one would start. -/
theorem broadcast_not_suffix (broadcast : k.Broadcast) (valid' : k'.Valid)
    (longer : device'.length = device.length + 6) :
    device ++ k.encode ≠ device' ++ k'.encode := by
  intro same
  have byte : (device ++ k.encode)[device'.length]? = (device' ++ k'.encode)[device'.length]? := by
    rw [same]
  rw [List.getElem?_append_right (by omega), List.getElem?_append_right (Nat.le_refl _), longer,
    Nat.add_sub_cancel_left, Nat.sub_self] at byte
  have zero : k.encode[6]? = some 0 := by
    unfold encode
    rw [broadcast.2.1]
    rfl
  have version : k'.encode[0]? = some (UInt8.ofNat k'.ipVersion) := rfl
  rw [zero, version, Option.some.injEq] at byte
  rcases valid'.version with four | six
  · rw [four] at byte
    cases byte
  · rw [six] at byte
    cases byte

/-- One tag is longer than another by as much as an IPv6 key is longer than an
IPv4 key, with or without a hardware address. -/
def Shifted (device device' : List UInt8) : Prop :=
  device.length = device'.length + 24 ∨ device.length = device'.length + 18

theorem encode_length_cases (valid : k.Valid) :
    (k.encode.length = 16 ∧ k.ipVersion = 4) ∨
      (k.encode.length = 22 ∧ k.ipVersion = 4 ∧ k.Broadcast) ∨
      (k.encode.length = 40 ∧ k.ipVersion = 6) := by
  rw [valid.encode_length, addrLen]
  by_cases broadcast : k.Broadcast
  · simp [broadcast, broadcast.1]
  · rcases valid.version with four | six
    · simp [broadcast, four]
    · simp [broadcast, six]

/-- **One stream, one key.** -/
theorem stream_inj (valid : k.Valid) (valid' : k'.Valid)
    (apart : k.ipVersion = 4 → k'.ipVersion = 6 → ¬ Shifted device device')
    (apart' : k'.ipVersion = 4 → k.ipVersion = 6 → ¬ Shifted device' device)
    (same : device ++ k.encode = device' ++ k'.encode) :
    device = device' ∧ k.encode = k'.encode := by
  have lengths := congrArg List.length same
  simp only [List.length_append] at lengths
  by_cases equal : device.length = device'.length
  · exact List.append_inj same equal
  rcases encode_length_cases valid with ⟨size, four⟩ | ⟨size, four, broadcast⟩ | ⟨size, six⟩ <;>
    rcases encode_length_cases valid' with
      ⟨size', four'⟩ | ⟨size', four', broadcast'⟩ | ⟨size', six'⟩ <;>
    rw [size, size'] at lengths
  · omega
  · exact absurd same.symm (broadcast_not_suffix broadcast' valid (by omega))
  · exact absurd (.inl (by omega)) (apart four six')
  · exact absurd same (broadcast_not_suffix broadcast valid' (by omega))
  · omega
  · exact absurd (.inr (by omega)) (apart four six')
  · exact absurd (.inl (by omega)) (apart' four' six)
  · exact absurd (.inr (by omega)) (apart' four' six)
  · omega

end FlowKey

end NetifyAgent
