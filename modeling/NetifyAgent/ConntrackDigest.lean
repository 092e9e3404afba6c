import NetifyAgent.ConntrackTables
import NetifyAgent.KeySymmetry

/-! The digest of a captured flow and the digest of its conntrack entry. Both
sides hash the family, the protocol, the addresses in order and the ports, but
the conntrack side takes the width of the addresses from the original source
address, which an event of the other family leaves as it was. -/
namespace NetifyAgent.ConntrackDigest
open NetifyAgent.Bytes NetifyAgent.Dissection NetifyAgent.Runs NetifyAgent.KeySymmetry
open NetifyAgent.Index ConntrackFlow ConntrackThread

/-! ## Captured flows -/

section
variable {cfg : CaptureConfig} {s : CaptureServices} {p : Packet} {h : Headers}
  {after : CaptureThread}

/-- What `UpdateFlow` hashes, by the key of the flow. -/
theorem flowStream_key (flow : Flow) : flowStream flow =
    leBytes16 (if flow.key.ipVersion = 4 then afInet else afInet6).toNat ++
      ([UInt8.ofNat flow.key.ipProtocol] ++ (flow.key.lower.1 ++ (flow.key.upper.1 ++
        (leBytes16 flow.key.lower.2 ++ leBytes16 flow.key.upper.2)))) := rfl

/-- A captured flow between two addresses has the smaller one below. -/
theorem lower_less (hashes : Hashes cfg s p h after) (differ : h.ip.src p ≠ h.ip.dst p) :
    memcmp after.flow.key.lower.1 after.flow.key.upper.1 < 0 := by
  obtain ⟨⟨vlanId, key⟩, _⟩ := key_of_hashes hashes
  obtain ⟨start, before, fuel, fresh, history, ended, taken⟩ := hashes
  obtain ⟨link, last, reached⟩ := reached_of_dissect ended
  obtain ⟨found, kept, accepted, _, same⟩ := processIp_last reached.headers
  simp only at same
  have width : (h.ip.src p).length = (h.ip.dst p).length := by
    unfold IpHeader.src IpHeader.dst
    split <;> simp
  have unequal : memcmp (h.ip.src p) (h.ip.dst p) ≠ 0 := fun zero =>
    differ ((memcmp_eq_zero width).mp zero)
  have compared : h.ip.addrCmp = memcmp (h.ip.src p) (h.ip.dst p) := by
    have addrs := addrCmpAt_eq s.extensions p found kept
    simp only at addrs
    rw [same] at unequal ⊢
    rw [if_neg fun both => unequal both.1] at addrs
    exact addrs
  rw [key]
  show memcmp (h.ip.addrs p).1 (h.ip.addrs p).2 < 0
  unfold IpHeader.addrs ordered
  split
  · rename_i less
    exact compared ▸ less
  · rename_i notLess
    simp only
    rw [memcmp_swap, ← compared]
    omega

end

/-! ## Entries -/

/-- The reply tuple: addresses of the entry's family, and ports as stored. -/
def replyEnds (f : ConntrackFlow) : Ends (List UInt8 × Nat) :=
  let addr (a : SockAddr) := if f.l3Proto = afInet then a.sinAddr.toList else a.sin6Addr.toList
  ⟨(addr f.replAddr.src, f.replPort.src.toNat), (addr f.replAddr.dst, f.replPort.dst.toNat)⟩

/-- Both reply addresses of an entry are those of its family, and its digest is
its own. -/
structure Genuine (sha1 : List UInt8 → List UInt8) (f : ConntrackFlow) : Prop where
  digest : f.digest = sha1 f.hashStream
  family : f.l3Proto = afInet ∨ f.l3Proto = afInet6
  reply : (f.l3Proto = afInet → ∃ a b, f.replAddr = ⟨.copy4 a, .copy4 b⟩) ∧
    (f.l3Proto = afInet6 → ∃ a b, f.replAddr = ⟨.copy6 a, .copy6 b⟩)

section
variable {sha1 : List UInt8 → List UInt8} {f : ConntrackFlow}

theorem copyAddrs_valid4 {tuple : NfTuple} {addr : Ends SockAddr}
    (valid : (copyAddrs 2 tuple addr).2 = ⟨true, true⟩) :
    ∃ a b, (copyAddrs 2 tuple addr).1 = ⟨.copy4 a, .copy4 b⟩ := by
  simp only [copyAddrs, if_true, Ends.mk.injEq, Option.isSome_iff_exists] at valid ⊢
  obtain ⟨⟨a, src⟩, b, dst⟩ := valid
  exact ⟨a, b, by rw [src]; rfl, by rw [dst]; rfl⟩

theorem copyAddrs_valid6 {tuple : NfTuple} {addr : Ends SockAddr}
    (valid : (copyAddrs 10 tuple addr).2 = ⟨true, true⟩) :
    ∃ a b, (copyAddrs 10 tuple addr).1 = ⟨.copy6 a, .copy6 b⟩ := by
  have not4 : ¬ (10 : UInt8) = 2 := by decide
  simp only [copyAddrs, if_neg not4, Ends.mk.injEq, Option.isSome_iff_exists] at valid ⊢
  obtain ⟨⟨a, src⟩, b, dst⟩ := valid
  exact ⟨a, b, by rw [src]; rfl, by rw [dst]; rfl⟩

theorem genuine_of_update {now : Nat} {ct : NfConntrack} {g : ConntrackFlow}
    (updated : g.update sha1 now ct = (f, none)) (valid : f.replAddrValid = ⟨true, true⟩) :
    Genuine sha1 f := by
  unfold ConntrackFlow.update at updated
  simp only at updated
  split at updated
  · cases updated
  · rename_i af set
    split at updated
    · cases updated
    · rename_i supported
      split at updated
      · cases updated
      · split at updated
        · cases updated
        · cases updated
          have family : af = 2 ∨ af = 10 := by
            by_contra other
            exact supported ⟨fun four => other (.inl four), fun six => other (.inr six)⟩
          refine ⟨rfl, ?_, ?_⟩
          · rcases family with rfl | rfl
            · exact .inl rfl
            · exact .inr rfl
          · have apart : (UInt8.toUInt16 2) ≠ afInet6 ∧ (UInt8.toUInt16 10) ≠ afInet := by decide
            rcases family with rfl | rfl
            · exact ⟨fun _ => copyAddrs_valid4 valid, fun other => absurd other apart.1⟩
            · exact ⟨fun other => absurd other apart.2, fun _ => copyAddrs_valid6 valid⟩

/-- The addresses an entry hashes while its reply addresses are valid. -/
theorem hashedAddrs_valid (valid : f.replAddrValid = ⟨true, true⟩) : f.hashedAddrs =
    if f.origAddr.src.family = afInet then
      ⟨f.replAddr.src.sinAddr.toList, f.replAddr.dst.sinAddr.toList⟩
    else if f.origAddr.src.family = afInet6 then
      ⟨f.replAddr.src.sin6Addr.toList, f.replAddr.dst.sin6Addr.toList⟩
    else ⟨[], []⟩ := by
  simp [hashedAddrs, hashedEnds, valid]

/-- An entry whose original source is of its own family hashes its reply tuple. -/
theorem hashedAddrs_own (valid : f.replAddrValid = ⟨true, true⟩)
    (family : f.l3Proto = afInet ∨ f.l3Proto = afInet6)
    (own : f.origAddr.src.family = f.l3Proto) :
    f.hashedAddrs = ⟨(replyEnds f).src.1, (replyEnds f).dst.1⟩ := by
  rw [hashedAddrs_valid valid, own]
  unfold replyEnds
  rcases family with four | six
  · simp [four]
  · have not4 : ¬ afInet6 = afInet := by decide
    simp [six, not4]

end

/-! ## Both streams -/

/-- The entry is that of the packet: protocol, addresses and ports are those of
the reply tuple or its reverse. -/
structure Matches (p : Packet) (ip : IpHeader) (f : ConntrackFlow) : Prop where
  version : f.l3Proto = if ip.ipVersion = 4 then afInet else afInet6
  protocol : f.l4Proto = ip.ipProtocol
  ends : s((replyEnds f).src, (replyEnds f).dst) = endpoints p ip

section
variable {cfg : CaptureConfig} {s : CaptureServices} {p : Packet} {h : Headers}
  {after : CaptureThread} {f : ConntrackFlow}

/-- What the key of a hashed packet says about its header. -/
theorem key_header (hashes : Hashes cfg s p h after) :
    after.flow.key.ipVersion = h.ip.ipVersion ∧
      UInt8.ofNat after.flow.key.ipProtocol = h.ip.ipProtocol := by
  obtain ⟨⟨_, key⟩, _⟩ := key_of_hashes hashes
  rw [key]
  exact ⟨rfl, UInt8.ofNat_toNat⟩

/-- An entry of the packet with its own family hashes what the packet hashes. -/
theorem streams_agree (hashes : Hashes cfg s p h after) (genuine : Genuine s.sha1 f)
    (valid : f.replAddrValid = ⟨true, true⟩) (differ : (replyEnds f).src.1 ≠ (replyEnds f).dst.1)
    (same : Matches p h.ip f) (own : f.origAddr.src.family = f.l3Proto) :
    flowStream after.flow = f.hashStream := by
  obtain ⟨_, _, ends, _⟩ := key_of_hashes hashes
  obtain ⟨version, protocol⟩ := key_header hashes
  have apart : h.ip.src p ≠ h.ip.dst p := by
    intro equal
    have both := same.ends
    unfold endpoints at both
    rw [equal] at both
    refine differ ?_
    split at both <;> rcases Sym2.eq_iff.mp both with ⟨one, two⟩ | ⟨one, two⟩ <;> rw [one, two]
  have less := lower_less hashes apart
  rw [flowStream_key, version, protocol, ← same.version, ← same.protocol]
  unfold hashStream
  rw [hashedAddrs_own valid genuine.family own]
  simp only
  rcases Sym2.eq_iff.mp (ends.trans same.ends.symm) with ⟨lower, upper⟩ | ⟨lower, upper⟩
  · rw [← lower, ← upper, if_pos less, lower, upper]
    rfl
  · have more : ¬ memcmp after.flow.key.upper.1 after.flow.key.lower.1 < 0 := by
      rw [memcmp_swap]
      omega
    rw [← lower, ← upper, if_neg more, lower, upper]
    rfl

/-- The addresses and ports an entry hashes, in the order it hashes them. -/
theorem hashStream_cases (f : ConntrackFlow) : ∃ first second : List UInt8 × UInt16,
    (first = (f.hashedAddrs.src, f.replPort.src) ∧ second = (f.hashedAddrs.dst, f.replPort.dst) ∨
      first = (f.hashedAddrs.dst, f.replPort.dst) ∧
        second = (f.hashedAddrs.src, f.replPort.src)) ∧
    f.hashStream = leBytes16 f.l3Proto.toNat ++ ([f.l4Proto] ++ (first.1 ++ (second.1 ++
      (leBytes16 first.2.toNat ++ leBytes16 second.2.toNat)))) := by
  unfold hashStream
  simp only
  split
  · exact ⟨(_, _), (_, _), .inl ⟨rfl, rfl⟩, rfl⟩
  · exact ⟨(_, _), (_, _), .inr ⟨rfl, rfl⟩, rfl⟩

/-- The addresses an entry hashes have one width, which tells the family of its
original source. -/
theorem hashedAddrs_width (valid : f.replAddrValid = ⟨true, true⟩) :
    f.hashedAddrs.src.length = f.hashedAddrs.dst.length ∧
      (f.hashedAddrs.src.length = 4 → f.origAddr.src.family = afInet) ∧
      (f.hashedAddrs.src.length = 16 → f.origAddr.src.family = afInet6) := by
  rw [hashedAddrs_valid valid]
  split
  · rename_i four
    simp [four]
  · split
    · rename_i six
      simp [six]
    · simp

/-- **One stream, one conversation.** A captured flow and an entry that hash the
same bytes are of one connection, and the entry is of its own family. -/
theorem matches_of_streams (hashes : Hashes cfg s p h after) (genuine : Genuine s.sha1 f)
    (valid : f.replAddrValid = ⟨true, true⟩) (same : flowStream after.flow = f.hashStream) :
    Matches p h.ip f ∧ f.origAddr.src.family = f.l3Proto := by
  obtain ⟨_, sound, ends, _⟩ := key_of_hashes hashes
  obtain ⟨version, protocol⟩ := key_header hashes
  obtain ⟨first, second, order, stream⟩ := hashStream_cases f
  rw [flowStream_key, stream, version, protocol] at same
  obtain ⟨family, same⟩ := List.append_inj same rfl
  obtain ⟨l4Proto, same⟩ := List.append_inj same rfl
  have l3Proto : (if h.ip.ipVersion = 4 then afInet else afInet6) = f.l3Proto :=
    UInt16.toNat_inj.mp (leBytes16_inj (UInt16.toNat_lt _) (UInt16.toNat_lt _) family)
  have lengths := congrArg List.length same
  obtain ⟨equal, narrow, wide⟩ := hashedAddrs_width valid
  have firstWidth : first.1.length = f.hashedAddrs.src.length ∧
      second.1.length = f.hashedAddrs.src.length := by
    rcases order with ⟨rfl, rfl⟩ | ⟨rfl, rfl⟩
    · exact ⟨rfl, equal.symm⟩
    · exact ⟨equal.symm, rfl⟩
  simp only [List.length_append, leBytes16_length, sound.lower.1, sound.upper.1, firstWidth.1,
    firstWidth.2] at lengths
  have width : f.hashedAddrs.src.length = after.flow.key.addrLen := by omega
  obtain ⟨lower, same⟩ := List.append_inj same (by rw [sound.lower.1, firstWidth.1, width])
  obtain ⟨upper, same⟩ := List.append_inj same (by rw [sound.upper.1, firstWidth.2, width])
  obtain ⟨lport, uport⟩ := List.append_inj same rfl
  have lowerPort := leBytes16_inj sound.lower.2 (UInt16.toNat_lt _) lport
  have upperPort := leBytes16_inj sound.upper.2 (UInt16.toNat_lt _) uport
  have own : f.origAddr.src.family = f.l3Proto := by
    rw [← l3Proto]
    unfold FlowKey.addrLen at width
    rw [version] at width
    split at width
    · rename_i four
      rw [if_pos four]
      exact narrow width
    · rename_i not4
      rw [if_neg not4]
      exact wide width
  refine ⟨⟨l3Proto.symm, (List.singleton_inj.mp l4Proto).symm, ?_⟩, own⟩
  have addrs := hashedAddrs_own valid genuine.family own
  have below : after.flow.key.lower = (first.1, first.2.toNat) := Prod.ext lower lowerPort
  have above : after.flow.key.upper = (second.1, second.2.toNat) := Prod.ext upper upperPort
  rw [← ends, below, above]
  rcases order with ⟨rfl, rfl⟩ | ⟨rfl, rfl⟩
  · rw [addrs]
    rfl
  · rw [addrs]
    exact Sym2.eq_swap

end

/-! ## Entries that are found -/

/-- Every entry is stored under its own digest, which is that of its reply tuple
while both reply addresses are valid. -/
def Filed (sha1 : List UInt8 → List UInt8) (t : ConntrackThread) : Prop :=
  ∀ digest f, t.ctFlowMap.lookup digest = some f →
    f.digest = digest ∧ (f.replAddrValid = ⟨true, true⟩ → Genuine sha1 f)

section
variable {sha1 : List UInt8 → List UInt8} {t u : ConntrackThread}

theorem filed_insert {flows : CtFlowMap} {f : ConntrackFlow} {digest : List UInt8}
    (filed : ∀ digest f, flows.lookup digest = some f →
      f.digest = digest ∧ (f.replAddrValid = ⟨true, true⟩ → Genuine sha1 f))
    (own : f.digest = digest ∧ (f.replAddrValid = ⟨true, true⟩ → Genuine sha1 f))
    {d : List UInt8} {g : ConntrackFlow} (found : (flows.insert digest f).lookup d = some g) :
    g.digest = d ∧ (g.replAddrValid = ⟨true, true⟩ → Genuine sha1 g) := by
  rcases lookup_insert_cases.mp found with ⟨rfl, rfl⟩ | ⟨_, old⟩
  · exact own
  · exact filed d g old

theorem filed_event (filed : Filed sha1 t) (now : Nat) (raw : Raw) (type : MsgType)
    (ct : NfConntrack) : Filed sha1 (t.processConntrackEvent sha1 now raw type ct).1 := by
  have kept : Filed sha1 (ConntrackThread.processEvent sha1 now raw type ct t).1 := by
    cases type with
    | new =>
      unfold ConntrackThread.processEvent processNew
      rcases made : construct sha1 now raw ct with ⟨f, _ | thrown⟩
      · intro digest g found
        exact filed_insert filed ⟨rfl, genuine_of_update made⟩ found
      · exact filed
    | update =>
      unfold ConntrackThread.processEvent processUpdate
      simp only
      cases t.ctIdMap.lookup (ct.id.getD 0) with
      | none => exact filed
      | some digest =>
        simp only
        cases found : t.ctFlowMap.lookup digest with
        | none => exact filed
        | some old =>
          simp only
          rcases updated : old.update sha1 now ct with ⟨f, _ | thrown⟩
          · simp only
            split
            · rename_i same
              exact fun _ _ here => filed_insert filed ⟨same, genuine_of_update updated⟩ here
            · intro d g here
              refine filed_insert (fun d g here => ?_) ⟨rfl, genuine_of_update updated⟩ here
              exact filed d g (lookup_erase_cases.mp here).2
          · obtain ⟨_, _, raised⟩ := ConntrackTables.update_spec updated
            obtain ⟨own, invalid⟩ := raised (by simp)
            refine fun _ _ here => filed_insert filed ⟨own.trans (filed _ _ found).1, ?_⟩ here
            rw [invalid]
            exact fun valid => absurd valid (by decide)
    | destroy =>
      unfold ConntrackThread.processEvent processDestroy
      simp only
      split
      · exact filed
      · exact fun d g here => filed d g (lookup_erase_cases.mp here).2
    | other _ => exact filed
  unfold processConntrackEvent
  split <;> rename_i ended <;> rw [ended] at kept <;> exact kept

theorem filed_entries (clock : List UInt8 → Nat)
    (entries : List (Sigma fun _ : List UInt8 => ConntrackFlow)) (filed : Filed sha1 t) :
    Filed sha1 (entries.foldl (purgeEntry clock) t) := by
  induction entries generalizing t with
  | nil => exact filed
  | cons e entries ih =>
    apply ih
    unfold purgeEntry
    split
    · exact fun d g here => filed d g (lookup_erase_cases.mp here).2
    · exact filed

theorem filed_look (filed : Filed sha1 t) (now : Nat) (flow : Flow) :
    Filed sha1 (t.updateFlow sha1 now flow).1 := by
  unfold updateFlow
  split
  · exact filed
  · rename_i f found
    obtain ⟨own, genuine⟩ := filed _ f (Option.filter_eq_some_iff.mp found).1
    refine fun _ _ here => filed_insert (f := { f with updatedAt := now }) filed ⟨own, ?_⟩ here
    intro valid
    obtain ⟨digest, family, reply⟩ := genuine valid
    exact ⟨digest, family, reply⟩

theorem filed_of_run (reached : Reaches (ConntrackThread.step sha1) Always {} t) :
    Filed sha1 t := by
  refine reached.invariant (I := Filed sha1) (fun _ _ found => by simp at found) ?_
  intro t action u filed taken _
  unfold ConntrackThread.step at taken
  split at taken
  · cases taken
  · cases action with
    | event now raw type ct =>
      cases taken
      exact filed_event filed now raw type ct
    | purge clock =>
      cases taken
      exact filed_entries clock _ filed
    | look now flow =>
      cases taken
      exact filed_look filed now flow

theorem findFlow_spec {flow : Flow} {f : ConntrackFlow} (found : findFlow sha1 flow t = some f) :
    t.ctFlowMap.lookup (sha1 (flowStream flow)) = some f ∧
      f.replAddrValid = ⟨true, true⟩ := by
  obtain ⟨stored, valid⟩ := Option.filter_eq_some_iff.mp found
  obtain ⟨src, dst⟩ := Bool.and_eq_true_iff.mp valid
  refine ⟨stored, ?_⟩
  calc f.replAddrValid = ⟨f.replAddrValid.src, f.replAddrValid.dst⟩ := rfl
    _ = ⟨true, true⟩ := by rw [src, dst]

end

/-- **Two digests of one connection.** The digest of a captured flow is that of
its entry exactly if the entry's original source address is of the entry's own
family, and whatever entry a captured flow finds is of the same protocol and
between the same endpoints. -/
theorem digests_agree (s : CaptureServices) :
    (∀ cfg p h after (g f : ConntrackFlow) now ct, Hashes cfg s p h after →
      (h.ip.ipProtocol = IPPROTO_TCP ∨ h.ip.ipProtocol = IPPROTO_UDP) →
      g.update s.sha1 now ct = (f, none) → f.replAddrValid = ⟨true, true⟩ →
      (replyEnds f).src.1 ≠ (replyEnds f).dst.1 → Matches p h.ip f →
      CollisionFree s.sha1 (flowStream after.flow) f.hashStream →
      (s.sha1 (flowStream after.flow) = f.digest ↔ f.origAddr.src.family = f.l3Proto)) ∧
    ∀ t cfg p h after f, Reaches (ConntrackThread.step s.sha1) Always {} t →
      Hashes cfg s p h after → findFlow s.sha1 after.flow t = some f →
      CollisionFree s.sha1 (flowStream after.flow) f.hashStream → Matches p h.ip f := by
  constructor
  · intro cfg p h after g f now ct hashes _ updated valid differ same free
    have genuine := genuine_of_update updated valid
    rw [genuine.digest]
    constructor
    · intro equal
      exact (matches_of_streams hashes genuine valid (free equal)).2
    · intro own
      rw [streams_agree hashes genuine valid differ same own]
  · intro t cfg p h after f reached hashes found free
    obtain ⟨stored, valid⟩ := findFlow_spec found
    obtain ⟨digest, genuine⟩ := filed_of_run reached _ f stored
    have equal := (genuine valid).digest.symm.trans digest
    exact (matches_of_streams hashes (genuine valid) valid (free equal.symm)).1

/-! ## Two hosts -/

/-- Libraries that know the digests of the connections between the two hosts and
of the captured flow. -/
def services : CaptureServices :=
  { Frames.services with
    sha1 := fun stream =>
      if Frames.sha1 stream = [] then ConntrackTables.sha1 stream else Frames.sha1 stream }

/-- The entry of the connection from port 4000. -/
def entry : ConntrackFlow :=
  (construct services.sha1 0 ConntrackTables.zeroed (ConntrackTables.question 1 0xa00f)).1

/-- What both sides hash of it. -/
def udpStream : List UInt8 := [2, 0, 17, 192, 168, 1, 1, 192, 168, 1, 2, 15, 160, 0, 53]

/-- The first packet of the connection is captured. -/
theorem captured : ∃ h after, Hashes (Frames.eth0 .en10mb) services
    (Frames.udpFrame 1 2 4000 53 []) h after ∧ flowStream after.flow = udpStream ∧
    h.ip = ⟨14, 4, 17, 20, 34, 8, 0, -1⟩ := by
  have ended : (dissect .none .en10mb (Frames.udpFrame 1 2 4000 53 []) 2).outcome =
      .ok ⟨⟨14, 4, 17, 20, 34, 8, 0, -1⟩, none, some (42, 0)⟩ := by decide
  have question : (CaptureThread.processPacket (Frames.eth0 .en10mb) services 2
      (Frames.udpFrame 1 2 4000 53 []) {}).any
        (fun after => flowStream after.flow = udpStream) = true := by decide +kernel
  obtain ⟨after, taken, stream⟩ := (Option.any_eq_true _ _).mp question
  exact ⟨_, after, ⟨{}, {}, 2, rfl, .start, ended, taken⟩, of_decide_eq_true stream, rfl⟩

theorem entry_matches {ip : IpHeader} (header : ip = ⟨14, 4, 17, 20, 34, 8, 0, -1⟩) :
    Matches (Frames.udpFrame 1 2 4000 53 []) ip entry := by
  subst header
  exact ⟨by decide +kernel, by decide +kernel, by decide +kernel⟩

/-- The connection's entry is found by its packet. -/
theorem digests_agree_udp : ∃ h after t,
    Hashes (Frames.eth0 .en10mb) services (Frames.udpFrame 1 2 4000 53 []) h after ∧
    services.sha1 (flowStream after.flow) = entry.digest ∧
    findFlow services.sha1 after.flow t = some entry ∧
    Matches (Frames.udpFrame 1 2 4000 53 []) h.ip entry := by
  obtain ⟨h, after, hashes, stream, header⟩ := captured
  have hashed : entry.hashStream = udpStream := by decide +kernel
  have free : CollisionFree services.sha1 (flowStream after.flow) entry.hashStream := fun _ =>
    stream.trans hashed.symm
  have same := entry_matches header
  have agree := ((digests_agree services).1 (Frames.eth0 .en10mb) _ h after _ entry 0
    (ConntrackTables.question 1 0xa00f) hashes (.inr (by rw [header]; rfl)) rfl (by decide +kernel)
    (by decide +kernel) same free).mpr (by decide +kernel)
  have run : (exec (ConntrackThread.step services.sha1) Always {}
      [ConntrackTables.event .new (ConntrackTables.question 1 0xa00f)]).any (fun t =>
        t.ctFlowMap.lookup (services.sha1 udpStream) = some entry) = true := by decide +kernel
  obtain ⟨t, reached, stored⟩ := reached_of_exec run
  have found : findFlow services.sha1 after.flow t = some entry := by
    unfold findFlow
    rw [stream, of_decide_eq_true stored]
    decide +kernel
  exact ⟨h, after, t, hashes, agree, found,
    (digests_agree services).2 t _ _ h after entry reached hashes found free⟩

/-- An IPv4 connection whose original addresses are set for IPv6 only. -/
def mixed : NfConntrack :=
  { ConntrackTables.question 1 0xa00f with
    orig := { ConntrackTables.tuple 1 2 0xa00f 0x3500 with
      ipv4 := ⟨none, none⟩
      ipv6 := ⟨some (Vector.replicate 16 1), some (Vector.replicate 16 2)⟩ } }

/-- Such an entry has valid reply addresses that are those of the packet, and
another digest than the packet. -/
theorem digests_differ : ∃ h after f,
    Hashes (Frames.eth0 .en10mb) services (Frames.udpFrame 1 2 4000 53 []) h after ∧
    construct services.sha1 0 ConntrackTables.zeroed mixed = (f, none) ∧
    f.replAddrValid = ⟨true, true⟩ ∧ (replyEnds f).src.1 ≠ (replyEnds f).dst.1 ∧
    Matches (Frames.udpFrame 1 2 4000 53 []) h.ip f ∧
    services.sha1 (flowStream after.flow) ≠ f.digest := by
  obtain ⟨h, after, hashes, stream, header⟩ := captured
  refine ⟨h, after, (construct services.sha1 0 ConntrackTables.zeroed mixed).1, hashes, rfl, ?_⟩
  rw [stream, header]
  refine ⟨by decide +kernel, by decide +kernel, ?_, by decide +kernel⟩
  exact ⟨by decide +kernel, by decide +kernel, by decide +kernel⟩

end NetifyAgent.ConntrackDigest
