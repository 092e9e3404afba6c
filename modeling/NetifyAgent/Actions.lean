import NetifyAgent.IpWalk

/-! What the parts of a dissection log. Length tests that count a packet and go
on stand in front of the tags and of each IP header; the code between them only
reads, counts, rejects, and assigns values of the right size. -/
namespace NetifyAgent
open NetifyAgent.Bytes NetifyAgent.Dissection

/-- Hardware addresses have six bytes and exist on Ethernet only. -/
def Tame (dl : Datalink) : Op → Prop
  | .set (.createHw _ hwAddr) => dl = .en10mb ∧ hwAddr.length = 6
  | .set (.vlanId v) => v < 4096
  | _ => True

/-- An action that is tame and no test that goes on. -/
def Plain (dl : Datalink) (w : Op) : Prop := w ≠ .discard ∧ Tame dl w

section
variable {W : ExtensionWalker} {dl : Datalink} {p : Packet}

theorem plain_reject {α : Type} : Every (Plain dl) (reject : Dissect Op α) := by
  simp [Every, Plain, Tame]

theorem every_rejectIf {P : Op → Prop} (rejected : P .reject) {c : Prop} [Decidable c] :
    Every P (rejectIf c) := by
  unfold rejectIf
  split
  · simpa [Every] using rejected
  · exact every_pure ()

theorem plain_rejectIf {c : Prop} [Decidable c] : Every (Plain dl) (rejectIf c) :=
  every_rejectIf (by simp [Plain, Tame])

theorem plain_readIf {c : Prop} [Decidable c] {off len : Nat} :
    Every (Plain dl) (readIf c off len) := by
  unfold readIf
  split <;> simp [Every, Plain, Tame]

/-- The fixed header reads, counts and rejects, and assigns nothing. -/
theorem every_datalink {P : Op → Prop} (read : ∀ off len, P (.read off len))
    (count : ∀ c, P (.count c)) (rejected : P .reject) (dl : Datalink) :
    Every P (datalink dl p) := by
  unfold datalink
  cases dl with
  | null =>
    refine every_of_bind (every_rejectIf rejected) fun _ => ?_
    refine every_of_bind ((every_emit _).mpr (read _ _)) fun _ => ?_
    dsimp only
    split
    · exact every_pure _
    split
    · exact every_pure _
    · exact every_leave
  | en10mb =>
    refine every_of_bind (every_rejectIf rejected) fun _ => ?_
    refine every_of_bind (by simp [Every, read, count]) fun _ => ?_
    exact every_of_bind (every_rejectIf rejected) fun _ => every_pure _
  | linuxSll =>
    refine every_of_bind (every_rejectIf rejected) fun _ => ?_
    exact every_of_bind ((every_emit _).mpr (read _ _)) fun _ => every_pure _
  | raw => exact every_pure _
  | ipv4 => exact every_pure _
  | ipv6 => exact every_pure _
  | other dlt => simpa [Every] using rejected

theorem plain_datalink (dl' : Datalink) : Every (Plain dl) (datalink dl' p) := by
  apply every_datalink <;> simp [Plain, Tame]

theorem plain_assignAddrs (create : Side → List UInt8 → Assign)
    (tame : ∀ side bytes, Tame dl (.set (create side bytes))) {addrCmp : Int}
    {src dst : List UInt8} : ∀ w ∈ assignAddrs create dl p addrCmp src dst, Plain dl w := by
  intro w member
  simp only [assignAddrs, List.mem_append, List.mem_cons, List.not_mem_nil, or_false] at member
  rcases member with (rfl | rfl) | member
  · exact ⟨by simp, tame _ _⟩
  · exact ⟨by simp, tame _ _⟩
  split at member
  · rename_i ethernet
    simp only [List.mem_cons, List.not_mem_nil, or_false] at member
    rcases member with rfl | rfl | rfl | rfl
    · exact ⟨by simp, trivial⟩
    · exact ⟨by simp, trivial⟩
    · refine ⟨by simp, ethernet, ?_⟩
      unfold ordered
      split <;> simp
    · refine ⟨by simp, ethernet, ?_⟩
      unfold ordered
      split <;> simp
  · cases member

theorem plain_addrs (create : Side → List UInt8 → Assign)
    (tame : ∀ side bytes, Tame dl (.set (create side bytes))) {addrCmp : Int}
    {src dst : List UInt8} {a b n : Nat} : Every (Plain dl)
      (emits (.read a n :: .read b n :: assignAddrs create dl p addrCmp src dst)) := by
  intro w member
  simp only [emits_log, List.mem_cons] at member
  rcases member with rfl | rfl | member
  · exact ⟨by simp, trivial⟩
  · exact ⟨by simp, trivial⟩
  · exact plain_assignAddrs create tame w member

theorem plain_ip4Header (l2Len : Nat) (kept : Locals) :
    Every (Plain dl) (ip4Header dl p l2Len kept) := by
  unfold ip4Header
  refine every_of_bind (by simp [Every, Plain, Tame]) fun _ => ?_
  refine every_of_bind plain_readIf fun _ => every_of_bind plain_rejectIf fun _ => ?_
  split
  · exact every_of_bind (by simp [Plain, Tame]) fun _ => plain_reject
  split
  · exact every_of_bind (by simp [Plain, Tame]) fun _ => plain_reject
  refine every_of_bind plain_rejectIf fun _ => ?_
  exact every_of_bind (plain_addrs .createIn fun _ _ => trivial) fun _ => every_pure _

theorem plain_ip6Header (l2Len : Nat) (kept : Locals) :
    Every (Plain dl) (ip6Header W dl p l2Len kept) := by
  unfold ip6Header
  refine every_of_bind ?_ fun _ => every_of_bind plain_rejectIf fun _ => ?_
  · intro w member
    simp only [emits_log, List.mem_append, List.mem_map, List.mem_cons, List.not_mem_nil,
      or_false] at member
    rcases member with ((rfl | rfl | rfl) | ⟨r, _, rfl⟩) | rfl <;> exact ⟨by simp, trivial⟩
  · exact every_of_bind (plain_addrs .createIn6 fun _ _ => trivial) fun _ => every_pure _

theorem plain_ipVersionHeader (l2Len : Nat) (kept : Locals) :
    Every (Plain dl) (ipVersionHeader W dl p l2Len kept) := by
  unfold ipVersionHeader
  split
  · exact plain_ip4Header _ _
  split
  · exact plain_ip6Header _ _
  · exact plain_reject

theorem gtpOps_mem {s : Segment} {w : Op} (member : w ∈ gtpOps p s) :
    (∃ off len, w = .read off len) ∨ w = .set (.enterGtp 1) := by
  unfold gtpOps at member
  split at member
  · rcases List.mem_append.mp member with member | member
    · rcases List.mem_cons.mp member with rfl | member
      · exact .inl ⟨_, _, rfl⟩
      split at member
      · cases member
      · exact .inl ⟨_, _, List.mem_singleton.mp member⟩
    split at member
    · rcases List.mem_cons.mp member with rfl | member
      · exact .inl ⟨_, _, rfl⟩
      split at member
      · simp only [List.mem_cons, List.not_mem_nil, or_false] at member
        rcases member with rfl | rfl
        · exact .inr rfl
        · exact .inl ⟨_, _, rfl⟩
      · cases member
    · cases member
  · cases member

theorem plain_gtp (ip : IpHeader) (gtpv1 : Option Nat) : Every (Plain dl) (gtp p ip gtpv1) := by
  rw [gtp_eq (s := ⟨ip.l3Len, ip.ipProtocol, ip.l4, ip.l4Len⟩) rfl rfl rfl]
  intro w member
  rcases gtpOps_mem member with ⟨off, len, rfl⟩ | rfl
  · exact ⟨by simp, trivial⟩
  · exact ⟨by simp, trivial⟩

theorem plain_transport (ip : IpHeader) : Every (Plain dl) (transport p ip) := by
  unfold transport tcpHeader udpHeader
  split
  · refine every_of_bind (by simp [Plain, Tame]) fun _ => every_of_bind plain_rejectIf fun _ => ?_
    refine every_of_bind (by simp [Plain, Tame]) fun _ => every_of_bind plain_rejectIf fun _ => ?_
    exact every_of_bind (by simp [Every, assignPorts, Plain, Tame]) fun _ => every_pure _
  split
  · refine every_of_bind (by simp [Plain, Tame]) fun _ => every_of_bind plain_rejectIf fun _ => ?_
    refine every_of_bind (by simp [Every, assignPorts, Plain, Tame]) fun _ => ?_
    exact every_of_bind plain_rejectIf fun _ => every_pure _
  split
  · exact every_of_bind (by simp [Plain, Tame]) fun _ => every_pure _
  split
  · exact every_of_bind (by simp [Plain, Tame]) fun _ => every_pure _
  · exact every_pure _

end

end NetifyAgent
