import NetifyAgent.Detection
import NetifyAgent.OneFlow

/-! The privacy mask of a flow. A listed address of one family is compared with the bytes that an
address of that family would have in the union, whatever the family of the flow: there lie the
bytes of an earlier packet, or of none. -/
namespace NetifyAgent.PrivacyMask
open NetifyAgent.Bytes NetifyAgent.Dissection NetifyAgent.Runs NetifyAgent.OneFlow

/-- What the filters look at, and what they set. -/
structure Sides where
  lowerMac : Addr
  upperMac : Addr
  lowerAddr : Addr
  upperAddr : Addr
  privateLower : Bool
  privateUpper : Bool

def sides (flow : Flow) : Sides where
  lowerMac := flow.lowerMac
  upperMac := flow.upperMac
  lowerAddr := flow.lowerAddr
  upperAddr := flow.upperAddr
  privateLower := flow.privateLower
  privateUpper := flow.privateUpper

/-- What may become of a captured flow: `ProcessFlow` sets its mask, any number of times, and
everything else leaves addresses and mask alone. -/
inductive Handled (v : Services) (nf : Flow) : Flow → Prop where
  | captured : Handled v nf nf
  | other {f g : Flow} : Handled v nf f → sides g = sides f → Handled v nf g
  | processed {d d' : Det} : Handled v nf d.flow → processFlow v d = .ok d' →
      Handled v nf d'.flow

/-- A side of a flow is listed: by its hardware address, or by its IP address as one of its own
family. -/
def Listed (v : Services) (mac addr : Addr) : Prop :=
  (mac.family = .packet ∧ mac.sllAddr ∈ v.privacyFilterMac) ∨
    (addr.family, addr.getAddress) ∈ v.privacyFilterHost

/-- Bytes that are not an address of that kind are listed: those of a hardware address where the
flow has none, or those that the union holds in the place of the other family. -/
def Foreign (v : Services) (mac addr : Addr) : Prop :=
  (mac.family ≠ .packet ∧ mac.sllAddr ∈ v.privacyFilterMac) ∨
    (addr.family = .inet6 ∧ (.inet, addr.sinAddr) ∈ v.privacyFilterHost) ∨
    (addr.family = .inet ∧ (.inet6, addr.sin6Addr) ∈ v.privacyFilterHost)

/-- The law of the mask. -/
structure Exact (v : Services) (flow : Flow) : Prop where
  lower : flow.privateLower = true ↔ Listed v flow.lowerMac flow.lowerAddr
  upper : flow.privateUpper = true ↔ Listed v flow.upperMac flow.upperAddr

/-! ## The loops over the filters -/

/-- What the loops compare. -/
def Matches (v : Services) (mac addr : Addr) : Prop :=
  mac.sllAddr ∈ v.privacyFilterMac ∨ (.inet, addr.sinAddr) ∈ v.privacyFilterHost ∨
    (.inet6, addr.sin6Addr) ∈ v.privacyFilterHost

/-- The flow with another mask. -/
def masked (flow : Flow) (lower upper : Bool) : Flow :=
  { flow with privateLower := lower, privateUpper := upper }

/-- An entry that is skipped because both sides are private would change nothing. -/
theorem privateIf_eq (lower upper : Flow → Bool) (flow : Flow) :
    ProcessFlow.privateIf lower upper flow =
      masked flow (flow.privateLower || lower flow) (flow.privateUpper || upper flow) := by
  unfold ProcessFlow.privateIf masked
  split
  · rename_i both
    have kept : (flow.privateLower || lower flow) = flow.privateLower := by simp [both.1]
    have kept' : (flow.privateUpper || upper flow) = flow.privateUpper := by simp [both.2]
    rw [kept, kept']
  · rfl

/-- The tests of a host entry; one of another family is skipped. -/
def hostTest (host : Family × List UInt8) (addr : Addr) : Bool :=
  (host.1 = .inet ∧ addr.sinAddr = host.2) ∨ (host.1 = .inet6 ∧ addr.sin6Addr = host.2)

theorem privateHost_eq (host : Family × List UInt8) (flow : Flow) :
    ProcessFlow.privateHost host flow = masked flow
      (flow.privateLower || hostTest host flow.lowerAddr)
      (flow.privateUpper || hostTest host flow.upperAddr) := by
  obtain ⟨family, bytes⟩ := host
  cases family with
  | inet => simp [ProcessFlow.privateHost, privateIf_eq, hostTest, beq_eq_decide]
  | inet6 => simp [ProcessFlow.privateHost, privateIf_eq, hostTest, beq_eq_decide]
  | unspec => simp [ProcessFlow.privateHost, hostTest, masked]
  | packet => simp [ProcessFlow.privateHost, hostTest, masked]

/-- A loop over entries that test the addresses of a flow. -/
theorem foldl_masked {α : Type} (edit : α → Flow → Flow) (lower upper : α → Sides → Bool)
    (each : ∀ e flow, edit e flow = masked flow (flow.privateLower || lower e (sides flow))
      (flow.privateUpper || upper e (sides flow)))
    (blind : ∀ e flow l u, lower e (sides (masked flow l u)) = lower e (sides flow) ∧
      upper e (sides (masked flow l u)) = upper e (sides flow))
    (entries : List α) (flow : Flow) :
    entries.foldl (fun flow e => edit e flow) flow = masked flow
      (flow.privateLower || entries.any fun e => lower e (sides flow))
      (flow.privateUpper || entries.any fun e => upper e (sides flow)) := by
  induction entries generalizing flow with
  | nil => simp [masked]
  | cons e entries ih =>
    rw [List.foldl_cons, ih, each]
    simp only [blind, List.any_cons]
    simp [masked, Bool.or_assoc]

theorem any_hostTest (hosts : List (Family × List UInt8)) (addr : Addr) :
    (hosts.any fun host => hostTest host addr) = true ↔
      (.inet, addr.sinAddr) ∈ hosts ∨ (.inet6, addr.sin6Addr) ∈ hosts := by
  rw [List.any_eq_true]
  constructor
  · rintro ⟨⟨family, bytes⟩, member, test⟩
    rcases of_decide_eq_true test with ⟨rfl, same⟩ | ⟨rfl, same⟩
    · exact .inl (same ▸ member)
    · exact .inr (same ▸ member)
  · rintro (member | member)
    · exact ⟨_, member, decide_eq_true (.inl ⟨rfl, rfl⟩)⟩
    · exact ⟨_, member, decide_eq_true (.inr ⟨rfl, rfl⟩)⟩

/-- What both loops find on a side. -/
theorem matches_of_any (v : Services) (before : Bool) (mac addr : Addr) :
    (((before || v.privacyFilterMac.any fun m => m == mac.sllAddr) ||
        v.privacyFilterHost.any fun host => hostTest host addr) = true) ↔
      before = true ∨ Matches v mac addr := by
  have macs : (v.privacyFilterMac.any fun m => m == mac.sllAddr) = true ↔
      mac.sllAddr ∈ v.privacyFilterMac := by simp
  unfold Matches
  rw [Bool.or_eq_true, Bool.or_eq_true, macs, any_hostTest, or_assoc]

/-- **The mask** after the loops. -/
theorem privacy_eq (v : Services) (flow : Flow) :
    ∃ lower upper, ProcessFlow.privacy v flow = masked flow lower upper ∧
      (lower = true ↔ flow.privateLower = true ∨ Matches v flow.lowerMac flow.lowerAddr) ∧
      (upper = true ↔ flow.privateUpper = true ∨ Matches v flow.upperMac flow.upperAddr) := by
  unfold ProcessFlow.privacy
  rw [foldl_masked ProcessFlow.privateMac (fun mac sides => mac == sides.lowerMac.sllAddr)
    (fun mac sides => mac == sides.upperMac.sllAddr) (fun mac flow => privateIf_eq _ _ flow)
    (fun _ _ _ _ => ⟨rfl, rfl⟩)]
  rw [foldl_masked ProcessFlow.privateHost (fun host sides => hostTest host sides.lowerAddr)
    (fun host sides => hostTest host sides.upperAddr) privateHost_eq
    (fun _ _ _ _ => ⟨rfl, rfl⟩)]
  exact ⟨_, _, rfl, matches_of_any v _ flow.lowerMac flow.lowerAddr,
    matches_of_any v _ flow.upperMac flow.upperAddr⟩

/-! ## The stages before -/

section
variable {v : Services} {d d' : Det}

theorem sides_setDetectedApplication (id : Nat) :
    sides (setDetectedApplication v id d).flow = sides d.flow := by
  unfold setDetectedApplication
  split <;> rfl

theorem sides_whileUnknown (app : Flow → Nat) :
    sides (ProcessFlow.whileUnknown v app d).flow = sides d.flow := by
  unfold ProcessFlow.whileUnknown
  split
  · exact sides_setDetectedApplication _
  · rfl

theorem sides_dnsHint : sides (ProcessFlow.dnsHint v d).flow = sides d.flow := by
  unfold ProcessFlow.dnsHint
  split
  · rfl
  · split
    · rfl
    · simp only
      split
      · split <;> rfl
      · rfl

theorem sides_twin : sides (ProcessFlow.twin v d).flow = sides d.flow := by
  unfold ProcessFlow.twin
  split
  · exact sides_setDetectedApplication _
  · rfl

theorem sides_byNetwork : sides (ProcessFlow.byNetwork v d).flow = sides d.flow := by
  unfold ProcessFlow.byNetwork
  split
  · split <;> exact (sides_whileUnknown _).trans (sides_setDetectedApplication _)
  · rfl

theorem sides_storeDn (slot : Nat) (dn : NdpiFlow → Option (List UInt8))
    (clear : NdpiFlow → NdpiFlow) : sides (storeDn slot dn clear d).1.flow = sides d.flow := by
  unfold storeDn
  split
  · rfl
  · split <;> rfl

theorem sides_storeServerCn : sides (storeServerCn d).1.flow = sides d.flow := by
  unfold storeServerCn
  split
  · split <;> rfl
  · rfl

theorem sides_tlsMetadata : sides (ProcessFlow.tlsMetadata v d).flow = sides d.flow := by
  unfold ProcessFlow.tlsMetadata
  simp only
  refine (sides_storeDn _ _ _).trans ((sides_storeDn _ _ _).trans ?_)
  split
  · refine (sides_whileUnknown _).trans ?_
    exact sides_storeServerCn
  · exact sides_storeServerCn

theorem sides_httpMetadata : sides (ProcessFlow.httpMetadata d).flow = sides d.flow := by
  unfold ProcessFlow.httpMetadata
  cases d.ndpi.httpUserAgent with
  | none =>
    simp only
    split <;> rfl
  | some agent =>
    simp only
    split <;> rfl

theorem sides_metadata : sides (ProcessFlow.metadata v d).flow = sides d.flow := by
  unfold ProcessFlow.metadata
  simp only
  split
  · exact sides_tlsMetadata
  split
  · exact sides_httpMetadata
  split
  · rfl
  split <;> rfl

theorem sides_hashes : sides (ProcessFlow.hashes v d).flow = sides d.flow := by
  unfold ProcessFlow.hashes
  simp only
  split
  · rfl
  split
  · split <;> split <;> rfl
  · rfl

theorem sides_endpoints : sides (ProcessFlow.endpoints v d).flow = sides d.flow := by
  unfold ProcessFlow.endpoints ProcessFlow.endpoint
  simp only
  split <;> split <;> rfl

theorem sides_categories : sides (ProcessFlow.categories v d).flow = sides d.flow := by
  unfold ProcessFlow.categories
  simp only
  split <;> rfl

/-- **`ProcessFlow` sets the mask and leaves the addresses.** -/
theorem processFlow_sides (done : processFlow v d = .ok d') :
    ∃ e : Det, sides e.flow = sides d.flow ∧ d' = ProcessFlow.finish v e := by
  unfold processFlow enter at done
  split at done
  · cases done
    refine ⟨_, ?_, rfl⟩
    rw [sides_categories, sides_endpoints, sides_hashes, sides_metadata, sides_byNetwork]
    unfold ProcessFlow.byName
    rw [sides_whileUnknown, sides_whileUnknown, sides_twin]
    exact sides_dnsHint
  · cases done

end

/-! ## The law -/

/-- The addresses of a flow, and a mask that only the comparisons have set. -/
structure Masked (v : Services) (nf flow : Flow) : Prop where
  lowerMac : flow.lowerMac = nf.lowerMac
  upperMac : flow.upperMac = nf.upperMac
  lowerAddr : flow.lowerAddr = nf.lowerAddr
  upperAddr : flow.upperAddr = nf.upperAddr
  lower : flow.privateLower = true → Matches v nf.lowerMac nf.lowerAddr
  upper : flow.privateUpper = true → Matches v nf.upperMac nf.upperAddr

section
variable {v : Services} {nf f g : Flow}

theorem Masked.congr (mask : Masked v nf f) (same : sides g = sides f) : Masked v nf g := by
  obtain ⟨lowerMac, upperMac, lowerAddr, upperAddr, lower, upper⟩ := Sides.mk.inj same
  refine ⟨lowerMac.trans mask.lowerMac, upperMac.trans mask.upperMac,
    lowerAddr.trans mask.lowerAddr, upperAddr.trans mask.upperAddr, ?_, ?_⟩
  · rw [lower]
    exact mask.lower
  · rw [upper]
    exact mask.upper

/-- `ProcessFlow` finds everything that matches. -/
theorem Masked.processed {d d' : Det} (mask : Masked v nf d.flow)
    (done : processFlow v d = .ok d') : Masked v nf d'.flow ∧
      (d'.flow.privateLower = true ↔ Matches v nf.lowerMac nf.lowerAddr) ∧
      (d'.flow.privateUpper = true ↔ Matches v nf.upperMac nf.upperAddr) := by
  obtain ⟨e, same, rfl⟩ := processFlow_sides done
  have maps : sides e.flow.updateLowerMaps = sides e.flow := by
    unfold Flow.updateLowerMaps
    simp only
    split <;> split <;> rfl
  have before := mask.congr (maps.trans same)
  obtain ⟨lower, upper, masks, lower_iff, upper_iff⟩ := privacy_eq v e.flow.updateLowerMaps
  rw [before.lowerMac, before.lowerAddr, or_iff_right_of_imp before.lower] at lower_iff
  rw [before.upperMac, before.upperAddr, or_iff_right_of_imp before.upper] at upper_iff
  have after : sides (ProcessFlow.finish v e).flow =
      sides (masked e.flow.updateLowerMaps lower upper) := by
    rw [← masks]
    rfl
  have all : Masked v nf (masked e.flow.updateLowerMaps lower upper) :=
    ⟨before.lowerMac, before.upperMac, before.lowerAddr, before.upperAddr, lower_iff.mp,
      upper_iff.mp⟩
  obtain ⟨_, _, _, _, setLower, setUpper⟩ := Sides.mk.inj after
  refine ⟨all.congr after, ?_, ?_⟩
  · rw [setLower]
    exact lower_iff
  · rw [setUpper]
    exact upper_iff

/-- Every captured flow keeps its addresses, and a mask that only the comparisons have set. -/
theorem Handled.masked (lower : nf.privateLower = false) (upper : nf.privateUpper = false)
    (handled : Handled v nf f) : Masked v nf f := by
  induction handled with
  | captured =>
    exact ⟨rfl, rfl, rfl, rfl, fun h => absurd h (ne_true_of_eq_false lower),
      fun h => absurd h (ne_true_of_eq_false upper)⟩
  | other _ same ih => exact ih.congr same
  | processed _ done ih => exact (ih.processed done).1

/-- A side of an IPv4 or IPv6 flow matches if it is listed, or if other bytes are. -/
theorem matches_iff {mac addr : Addr} (ip : addr.family = .inet ∨ addr.family = .inet6) :
    Matches v mac addr ↔ Listed v mac addr ∨ Foreign v mac addr := by
  unfold Matches Listed Foreign Addr.getAddress
  rcases ip with four | six
  · simp only [four, reduceCtorEq, false_and, true_and, false_or]
    tauto
  · simp only [six, reduceCtorEq, false_and, true_and, or_false]
    tauto

end

/-- After `ProcessFlow` the mask of a captured flow is exact if and only if no side of it that is
not listed has other bytes that are. -/
theorem mask_iff {cfg : CaptureConfig} {s : CaptureServices} {v : Services} {x : Taken}
    {nf : Flow} {d d' : Det} (creates : Creates cfg s x nf) (handled : Handled v nf d.flow)
    (done : processFlow v d = .ok d') :
    Exact v d'.flow ↔
      (Foreign v nf.lowerMac nf.lowerAddr → Listed v nf.lowerMac nf.lowerAddr) ∧
        (Foreign v nf.upperMac nf.upperAddr → Listed v nf.upperMac nf.upperAddr) := by
  have stored := creates.stored
  have mask := handled.masked stored.privateLower stored.privateUpper
  obtain ⟨after, lower, upper⟩ := mask.processed done
  have typed := creates.typed.1
  have lowerIp : nf.lowerAddr.family = .inet ∨ nf.lowerAddr.family = .inet6 := by
    rw [stored.lowerAddr]
    exact typed.imp (·.2.1) (·.2.1)
  have upperIp : nf.upperAddr.family = .inet ∨ nf.upperAddr.family = .inet6 := by
    rw [stored.upperAddr]
    exact typed.imp (·.2.2) (·.2.2)
  rw [matches_iff lowerIp] at lower
  rw [matches_iff upperIp] at upper
  constructor
  · rintro ⟨exactLower, exactUpper⟩
    rw [after.lowerMac, after.lowerAddr] at exactLower
    rw [after.upperMac, after.upperAddr] at exactUpper
    exact ⟨fun foreign => exactLower.mp (lower.mpr (.inr foreign)),
      fun foreign => exactUpper.mp (upper.mpr (.inr foreign))⟩
  · rintro ⟨lowerOnly, upperOnly⟩
    constructor
    · rw [after.lowerMac, after.lowerAddr, lower, or_iff_left_of_imp lowerOnly]
    · rw [after.upperMac, after.upperAddr, upper, or_iff_left_of_imp upperOnly]

/-! ## An IPv6 flow behind an IPv4 packet -/

def host6 (n : UInt8) : List UInt8 := [0x20, 1, 0x0d, 0xb8] ++ List.replicate 11 0 ++ [n]

def udp6Frame : Packet :=
  .ofBytes (Frames.ethernet (Frames.mac 2) (Frames.mac 1) 0x86dd
    (Frames.ipv6 17 (host6 1) (host6 2) (Frames.udp 4000 53 [])))

def udp6Headers : Headers := ⟨⟨14, 6, 17, 40, 54, 8, 0, -1⟩, none, some (62, 0)⟩

/-- The thread that takes the IPv4 packet, and then the IPv6 packet. -/
def bothTaken : Option Taken :=
  (CaptureThread.step (Frames.eth0 .en10mb) Frames.services {}
    (.packet 2 (Frames.udpFrame 1 2 4000 53 []))).bind fun before =>
      (CaptureThread.step (Frames.eth0 .en10mb) Frames.services before
        (.packet 2 udp6Frame)).map fun after => ⟨udp6Frame, udp6Headers, before, after⟩

/-- Surroundings in which hosts are private. -/
def filtering (hosts : List (Family × List UInt8)) : Services :=
  { Services.bare with privacyFilterHost := hosts }

/-- The IPv6 flow, once detection has state for it, and what `ProcessFlow` makes of it. -/
def detected (hosts : List (Family × List UInt8)) (nf : Flow) : Option Det :=
  (processFlow (filtering hosts) ⟨{ nf with ndpiFlow := some {} }, []⟩).toOption

/-- The packet makes a new flow, of which the checks hold before and after detection. -/
def CreatesSuch (hosts : List (Family × List UInt8)) (before after : Flow → Bool)
    (x : Taken) : Bool :=
  (x.before.flowBuckets x.after.flow.digestLower).isNone &&
    (x.after.flowBuckets x.after.flow.digestLower).any fun nf =>
      before nf && (detected hosts nf).any fun d => after d.flow

theorem handled_of_such {hosts : List (Family × List UInt8)} {before after : Flow → Bool}
    (such : bothTaken.any (CreatesSuch hosts before after) = true) : ∃ x nf d d',
    Creates (Frames.eth0 .en10mb) Frames.services x nf ∧
      Handled (filtering hosts) nf d.flow ∧ processFlow (filtering hosts) d = .ok d' ∧
      before nf = true ∧ after d'.flow = true := by
  have ended : (dissect .none .en10mb udp6Frame 2).outcome = .ok udp6Headers := by decide
  obtain ⟨x, taken, holds⟩ := (Option.any_eq_true _ _).mp such
  obtain ⟨t, first, rest⟩ := Option.bind_eq_some_iff.mp taken
  obtain ⟨t', second, rfl⟩ := Option.map_eq_some_iff.mp rest
  obtain ⟨absent, flow⟩ := Bool.and_eq_true_iff.mp holds
  obtain ⟨nf, created, holds⟩ := (Option.any_eq_true _ _).mp flow
  obtain ⟨early, holds⟩ := Bool.and_eq_true_iff.mp holds
  obtain ⟨d', done, late⟩ := (Option.any_eq_true _ _).mp holds
  have creates : Creates (Frames.eth0 .en10mb) Frames.services ⟨udp6Frame, udp6Headers, t, t'⟩ nf :=
    ⟨⟨{}, rfl, .next .start first trivial⟩, ⟨2, second, ended⟩,
      Option.isNone_iff_eq_none.mp absent, created⟩
  refine ⟨_, nf, ⟨{ nf with ndpiFlow := some {} }, []⟩, d', creates, .other .captured rfl, ?_,
    early, late⟩
  unfold detected at done
  cases result : processFlow (filtering hosts) ⟨{ nf with ndpiFlow := some {} }, []⟩ with
  | ok e =>
    rw [result] at done
    cases done
    rfl
  | error e =>
    rw [result] at done
    cases done

/-- The IPv6 address of the flow is listed. -/
theorem host6_private : ∃ x nf d d', Creates (Frames.eth0 .en10mb) Frames.services x nf ∧
    Handled (filtering [(.inet6, host6 1)]) nf d.flow ∧
    processFlow (filtering [(.inet6, host6 1)]) d = .ok d' ∧
    d'.flow.privateLower = true ∧ Exact (filtering [(.inet6, host6 1)]) d'.flow := by
  have such : bothTaken.any (CreatesSuch [(.inet6, host6 1)]
      (fun nf => nf.lowerAddr.family = .inet6 ∧ nf.upperAddr.family = .inet6)
      (fun flow => flow.privateLower)) = true := by decide +kernel
  obtain ⟨x, nf, d, d', creates, handled, done, families, lower⟩ := handled_of_such such
  obtain ⟨lowerSix, upperSix⟩ := of_decide_eq_true families
  -- no hardware address and no IPv4 address is listed
  have none : ∀ mac addr : Addr, addr.family = .inet6 →
      ¬ Foreign (filtering [(.inet6, host6 1)]) mac addr := by
    rintro mac addr six (⟨_, listed⟩ | ⟨_, listed⟩ | ⟨four, _⟩)
    · cases listed
    · simp [filtering] at listed
    · rw [six] at four
      cases four
  refine ⟨x, nf, d, d', creates, handled, done, lower, (mask_iff creates handled done).mpr ?_⟩
  exact ⟨fun foreign => absurd foreign (none _ _ lowerSix),
    fun foreign => absurd foreign (none _ _ upperSix)⟩

/-- The IPv4 address of the packet before is listed, and the IPv6 flow is private. -/
theorem left_over_private : ∃ x nf d d', Creates (Frames.eth0 .en10mb) Frames.services x nf ∧
    Handled (filtering [(.inet, Frames.host 1)]) nf d.flow ∧
    processFlow (filtering [(.inet, Frames.host 1)]) d = .ok d' ∧
    d'.flow.ipVersion = 6 ∧ d'.flow.lowerAddr.getAddress = host6 1 ∧
    d'.flow.privateLower = true ∧ ¬ Exact (filtering [(.inet, Frames.host 1)]) d'.flow := by
  have such : bothTaken.any (CreatesSuch [(.inet, Frames.host 1)] (fun _ => true)
      (fun flow => flow.ipVersion = 6 ∧ flow.lowerAddr.getAddress = host6 1 ∧
        flow.lowerAddr.family = .inet6 ∧ flow.privateLower)) = true := by decide +kernel
  obtain ⟨x, nf, d, d', creates, handled, done, _, holds⟩ := handled_of_such such
  obtain ⟨version, address, family, lower⟩ := of_decide_eq_true holds
  refine ⟨x, nf, d, d', creates, handled, done, version, address, lower, fun exact => ?_⟩
  rcases exact.lower.mp lower with ⟨_, listed⟩ | listed
  · cases listed
  · rw [family] at listed
    simp [filtering] at listed

end NetifyAgent.PrivacyMask
