import NetifyAgent.Announcements
import NetifyAgent.DetectionEntry
import NetifyAgent.Lib.Runs

/-! Updates of metadata that are not announced. `ProcessPacket` collects in one
variable whether one of its sources of metadata found something new. The result
for the server's ALPN choice is assigned to that variable, which forgets what
the sources before it said, and the result for the client's ALPN list is not
looked at, although a list that arrives again is taken for the server's choice
and may refine the protocol. -/
namespace NetifyAgent.MetadataUpdates
open NetifyAgent.Bytes NetifyAgent.Overlay NetifyAgent.Runs NetifyAgent.Announcements
open ProcessPacket

/-- The sources of TLS metadata other than ALPN, in their order. -/
def sources (s : Services) : List (Det → Det × Bool) :=
  [cipherSuite, serverCn s, storeIssuerDn, storeSubjectDn, serverJa3, certFingerprint]

/-- One of them finds something new. -/
def Finds (s : Services) (d : Det) : Prop := ∃ source ∈ sources s, (source d).2 = true

/-- The metadata of the flow is that of TLS or QUIC. -/
def Tls (d : Det) : Prop :=
  d.flow.getMasterProtocol = Proto.tls ∨ d.flow.getMasterProtocol = Proto.quic

/-- The client's list is taken for the server's choice: it has arrived before
and the server has not chosen yet. -/
def Crossed (d : Det) : Prop :=
  d.ndpi.advertisedAlpns.isSome = true ∧ d.flow.tlsAlpnSet = true ∧ d.flow.tlsAlpnServerSet = false

/-- The value that is taken for the server's choice. -/
def taken (d : Det) : Option (List UInt8) :=
  if d.flow.tlsAlpnServerSet then none
  else if d.ndpi.advertisedAlpns.isSome ∧ d.flow.tlsAlpnSet then d.ndpi.advertisedAlpns
  else d.ndpi.negotiatedAlpn

/-- A choice names another protocol than the one detected. -/
def Refines (s : Services) (d : Det) : Prop :=
  ∃ alpn ∈ taken d, ∃ p ∈ s.alpnProtos alpn, p ≠ d.flow.detectedProtocol

/-- The protocol once the choice has been looked at. -/
def refined (s : Services) (d : Det) : ProtoId :=
  ((taken d).bind s.alpnProtos).getD d.flow.detectedProtocol

instance (s : Services) (d : Det) : Decidable (Finds s d) :=
  inferInstanceAs (Decidable (∃ source ∈ sources s, (source d).2 = true))

instance (d : Det) : Decidable (Tls d) := inferInstanceAs (Decidable (_ ∨ _))

instance (d : Det) : Decidable (Crossed d) := inferInstanceAs (Decidable (_ ∧ _ ∧ _))

instance (s : Services) (d : Det) : Decidable (Refines s d) :=
  inferInstanceAs (Decidable (∃ alpn ∈ taken d, ∃ p ∈ s.alpnProtos alpn, _))

/-- What was found is forgotten: the server's choice is looked at last and
refines nothing, or the protocol was refined by the client's list. -/
def Forgotten (s : Services) (d : Det) : Prop :=
  d.ndpi.negotiatedAlpn.isSome = true ∧ (Finds s d ∨ Refines s d) ∧ (Crossed d ∨ ¬ Refines s d) ∨
    d.ndpi.negotiatedAlpn.isSome = false ∧ ¬ Finds s d ∧ Refines s d

instance (s : Services) (d : Det) : Decidable (Forgotten s d) :=
  inferInstanceAs (Decidable (_ ∧ (_ ∨ _) ∧ (_ ∨ ¬ _) ∨ _ ∧ ¬ _ ∧ _))

/-- The flow as the sources find it. -/
def ready (s : Services) (packet : Option Nat) (a : Answer) (d : Det) : Det :=
  setUpdated false (handed s packet a d)

/-- An update is lost: it is forgotten, and completion does not announce it
either, since detection is complete or wants more packets. -/
def Lost (s : Services) (d : Det) : Prop :=
  Tls d ∧ Forgotten s d ∧ (d.flow.flags.detectionComplete = true ∨
    extraPackets d.ndpi.extraPackets
      (d.edit fun flow => { flow with detectedProtocol := refined s d }) = true)

instance (s : Services) (d : Det) : Decidable (Lost s d) :=
  inferInstanceAs (Decidable (_ ∧ _ ∧ (_ ∨ _)))

/-- A source stores metadata. -/
def Stores (s : Services) (d : Det) : Prop :=
  if Tls d then
    Finds s d ∨ (taken d).isSome ∨ d.ndpi.advertisedAlpns.isSome ∧ d.flow.tlsAlpnSet = false
  else if d.flow.getMasterProtocol = Proto.mdns then (mdnsUpdate d).2 = true
  else if d.flow.getMasterProtocol = Proto.ssh then (sshUpdate d).2 = true
  else False

/-! ## The sources -/

/-- What the sources leave alone. -/
structure Steady where
  protocol : ProtoId
  init : Bool
  complete : Bool
  certificateProcessed : Bool
  advertisedAlpns : Option (List UInt8)
  negotiatedAlpn : Option (List UInt8)
  alpn : List (List UInt8) × Bool
  alpnServer : List (List UInt8) × Bool

def steady (d : Det) : Steady where
  protocol := d.flow.detectedProtocol
  init := d.flow.flags.detectionInit
  complete := d.flow.flags.detectionComplete
  certificateProcessed := d.ndpi.certificateProcessed
  advertisedAlpns := d.ndpi.advertisedAlpns
  negotiatedAlpn := d.ndpi.negotiatedAlpn
  alpn := (d.flow.tlsAlpn, d.flow.tlsAlpnSet)
  alpnServer := (d.flow.tlsAlpnServer, d.flow.tlsAlpnServerSet)

section
variable {s : Services} {d d' : Det}

theorem steady_editNdpi {f : NdpiFlow → NdpiFlow}
    (same : ∀ n : NdpiFlow, ((f n).certificateProcessed, (f n).advertisedAlpns,
      (f n).negotiatedAlpn) = (n.certificateProcessed, n.advertisedAlpns, n.negotiatedAlpn)) :
    steady (d.editNdpi f) = steady d := by
  have kept : ∀ n : Option NdpiFlow, (((n.map f).getD {}).certificateProcessed,
      ((n.map f).getD {}).advertisedAlpns, ((n.map f).getD {}).negotiatedAlpn) =
        ((n.getD {}).certificateProcessed, (n.getD {}).advertisedAlpns,
          (n.getD {}).negotiatedAlpn) := by
    intro n
    cases n with
    | none => rfl
    | some n => exact same n
  have here := kept d.flow.ndpiFlow
  simp only [Prod.mk.injEq] at here
  simp only [steady, Det.ndpi, Det.editNdpi, Det.edit_flow, here]

theorem steady_setDetectedApplication (appId : Nat) :
    steady (setDetectedApplication s appId d) = steady d := by
  unfold setDetectedApplication
  split <;> rfl

theorem steady_storeServerCn : steady (storeServerCn d).1 = steady d := by
  unfold storeServerCn
  split
  · split
    · rfl
    · refine (steady_editNdpi (f := fun n => { n with serverCn := none }) fun _ => rfl).trans ?_
      rfl
  · rfl

theorem steady_storeDn {slot : Nat} {dn : NdpiFlow → Option (List UInt8)}
    {clear : NdpiFlow → NdpiFlow}
    (same : ∀ n : NdpiFlow, ((clear n).certificateProcessed, (clear n).advertisedAlpns,
      (clear n).negotiatedAlpn) = (n.certificateProcessed, n.advertisedAlpns, n.negotiatedAlpn)) :
    steady (storeDn slot dn clear d).1 = steady d := by
  unfold storeDn
  split
  · rfl
  · split
    · exact (steady_editNdpi same).trans rfl
    · rfl

/-- What is known of each source. -/
structure Source (source : Det → Det × Bool) : Prop where
  idle : ∀ d, (source d).2 = false → (source d).1 = d
  steady : ∀ d, steady (source d).1 = steady d
  updated : ∀ d, (source d).1.flow.flags.detectionUpdated = d.flow.flags.detectionUpdated
  announced : ∀ d, announced (source d).1 = announced d

theorem source_of_standing {source : Det → Det × Bool}
    (idle : ∀ d, (source d).2 = false → (source d).1 = d)
    (same : ∀ d, MetadataUpdates.steady (source d).1 = MetadataUpdates.steady d)
    (standing : ∀ d, (source d).1.standing = d.standing) : Source source where
  idle := idle
  steady := same
  updated := fun d => congrArg (fun view => view.1.updated) (standing d)
  announced := fun d => announced_of_standing (standing d)

theorem source_storeDn {slot : Nat} {dn : NdpiFlow → Option (List UInt8)}
    {clear : NdpiFlow → NdpiFlow}
    (same : ∀ n : NdpiFlow, ((clear n).certificateProcessed, (clear n).advertisedAlpns,
      (clear n).negotiatedAlpn) = (n.certificateProcessed, n.advertisedAlpns, n.negotiatedAlpn)) :
    Source (storeDn slot dn clear) := by
  refine source_of_standing (fun d idle => ?_) (fun d => steady_storeDn same)
    fun d => stands_storeDn _ _ _
  unfold storeDn at idle ⊢
  split
  · rfl
  · rename_i unset
    rw [if_neg unset] at idle
    split
    · rename_i found
      rw [if_pos found] at idle
      cases idle
    · rfl

theorem idle_ite {c : Prop} [Decidable c] {x y : Det}
    (idle : (if c then (x, true) else (y, false)).2 = false) :
    (if c then (x, true) else (y, false)).1 = y := by
  split at idle
  · cases idle
  · rename_i not
    rw [if_neg not]

theorem idle_ite_not {c : Prop} [Decidable c] {x y : Det}
    (idle : (if c then (y, false) else (x, true)).2 = false) :
    (if c then (y, false) else (x, true)).1 = y := by
  split at idle
  · rename_i not
    rw [if_pos not]
  · cases idle

theorem source_mem {source : Det → Det × Bool} (member : source ∈ sources s) : Source source := by
  simp only [sources, List.mem_cons, List.not_mem_nil, or_false] at member
  rcases member with rfl | rfl | rfl | rfl | rfl | rfl
  · refine source_of_standing (fun d => idle_ite) (fun d => ?_) fun d => stands_cipherSuite
    unfold cipherSuite
    split <;> rfl
  · refine source_of_standing (fun d => idle_ite) (fun d => ?_) fun d => stands_serverCn
    unfold serverCn
    simp only
    split
    · exact (steady_setDetectedApplication _).trans steady_storeServerCn
    · rfl
  · exact source_storeDn fun _ => rfl
  · exact source_storeDn fun _ => rfl
  · refine source_of_standing (fun d => idle_ite_not) (fun d => ?_) fun d => stands_serverJa3
    unfold serverJa3
    split <;> rfl
  · refine source_of_standing (fun d => idle_ite_not) (fun d => ?_) fun d => stands_certFingerprint
    unfold certFingerprint
    split <;> rfl

/-- What sources leave behind that are asked in turn. -/
structure Asked (list : List (Det → Det × Bool)) (x y : Det × Bool) : Prop where
  found : y.2 = true ↔ x.2 = true ∨ ∃ source ∈ list, (source x.1).2 = true
  updated : x.1.flow.flags.detectionUpdated = x.2 → y.1.flow.flags.detectionUpdated = y.2
  steady : steady y.1 = steady x.1
  announced : announced y.1 = announced x.1

/-- A source is asked in the state the earlier ones left, but as long as none of
them found anything that is the state they all started from. -/
theorem asked_foldl {list : List (Det → Det × Bool)} (each : ∀ source ∈ list, Source source)
    (x : Det × Bool) : Asked list x (list.foldl (fun x source => update source x) x) := by
  induction list generalizing x with
  | nil => exact ⟨by simp, id, rfl, rfl⟩
  | cons source rest ih =>
    have here := each source List.mem_cons_self
    obtain ⟨found, updated, steady, announced⟩ :=
      ih (fun other later => each other (List.mem_cons_of_mem _ later)) (update source x)
    rw [List.foldl_cons]
    cases fires : (source x.1).2 with
    | true =>
      have step : update source x = (setUpdated true (source x.1).1, true) := by
        simp only [update, fires, if_true]
      rw [step] at found updated steady announced ⊢
      refine ⟨?_, fun _ => updated rfl, steady.trans (here.steady x.1), ?_⟩
      · simp only [found, true_or, true_iff]
        exact .inr ⟨source, List.mem_cons_self, fires⟩
      · exact announced.trans ((announced_edit rfl).trans (here.announced x.1))
    | false =>
      have step : update source x = x := by
        simp only [update, fires, here.idle x.1 fires, Bool.false_eq_true, if_false]
      rw [step] at found updated steady announced ⊢
      refine ⟨?_, updated, steady, announced⟩
      simp only [found, List.mem_cons, exists_eq_or_imp, fires, Bool.false_eq_true, false_or]

/-- The flow and the variable when the sources have been asked. -/
def found (s : Services) (d : Det) : Det × Bool :=
  (sources s).foldl (fun x source => update source x) (d, false)

theorem tlsUpdates_eq (d : Det) :
    tlsUpdates s d = negotiatedAlpn s (advertisedAlpns s (found s d)) := by
  unfold tlsUpdates found sources
  simp only [List.foldl_cons, List.foldl_nil]

theorem asked_found (s : Services) (d : Det) : Asked (sources s) (d, false) (found s d) := by
  unfold found
  exact asked_foldl (fun _ => source_mem) (d, false)

/-! ## The ALPN values -/

/-- A value is taken for the server's choice. -/
structure Takes (s : Services) (alpn : List UInt8) (d : Det) (y : Det × Bool) : Prop where
  result : y.2 = decide (∃ p ∈ s.alpnProtos alpn, p ≠ d.flow.detectedProtocol)
  updated : y.1.flow.flags.detectionUpdated = (d.flow.flags.detectionUpdated || y.2)
  protocol : y.1.flow.detectedProtocol = (s.alpnProtos alpn).getD d.flow.detectedProtocol
  server : y.1.flow.tlsAlpnServer = d.flow.tlsAlpnServer ++ [alpn]
  serverSet : y.1.flow.tlsAlpnServerSet = true
  flags : y.1.flow.flags.detectionInit = d.flow.flags.detectionInit
  ndpi : y.1.flow.ndpiFlow = d.flow.ndpiFlow

theorem processAlpn_takes (alpn : List UInt8) {client : Bool}
    (old : client = true → d.flow.tlsAlpnSet = true) (free : d.flow.tlsAlpnServerSet = false) :
    Takes s alpn d (processAlpn s alpn client d) := by
  have branch : ¬ (client = true ∧ d.flow.tlsAlpnSet = false) := by
    rintro ⟨yes, no⟩
    rw [old yes] at no
    cases no
  unfold processAlpn
  rw [if_neg branch, if_neg (by simp [free])]
  cases named : s.alpnProtos alpn with
  | none => exact ⟨by simp [named], by simp, by simp [named], rfl, rfl, rfl, rfl⟩
  | some p =>
    simp only
    by_cases same : p = d.flow.detectedProtocol
    · rw [if_pos (by simpa using same)]
      exact ⟨by simp [named, same], by simp, by simp [named, same], rfl, rfl, rfl, rfl⟩
    · rw [if_neg (by simpa using same)]
      exact ⟨by simp [named, same], by simp, by simp [named, Det.setProtocol], rfl, rfl, rfl, rfl⟩

theorem processAlpn_keeps {alpn : List UInt8} {client : Bool}
    (old : client = true → d.flow.tlsAlpnSet = true) (set : d.flow.tlsAlpnServerSet = true) :
    processAlpn s alpn client d = (d, false) := by
  have branch : ¬ (client = true ∧ d.flow.tlsAlpnSet = false) := by
    rintro ⟨yes, no⟩
    rw [old yes] at no
    cases no
  unfold processAlpn
  rw [if_neg branch, if_pos set]

/-- What looking at the ALPN values does, from the state the sources left. -/
structure Chosen (s : Services) (d : Det) (x y : Det × Bool) : Prop where
  result : y.2 = if d.ndpi.negotiatedAlpn.isSome then decide (¬ Crossed d ∧ Refines s d) else x.2
  updated : y.1.flow.flags.detectionUpdated =
    (x.1.flow.flags.detectionUpdated || decide (Refines s d))
  protocol : y.1.flow.detectedProtocol = refined s d
  server : y.1.flow.tlsAlpnServer = d.flow.tlsAlpnServer ++ (taken d).toList
  init : y.1.flow.flags.detectionInit = d.flow.flags.detectionInit
  certificate : y.1.ndpi.certificateProcessed = d.ndpi.certificateProcessed

theorem ndpi_of_flow {d e : Det} (same : e.flow.ndpiFlow = d.flow.ndpiFlow) : e.ndpi = d.ndpi := by
  rw [Det.ndpi, Det.ndpi, same]

theorem certificate_editNdpi {f : NdpiFlow → NdpiFlow}
    (same : ∀ n : NdpiFlow, (f n).certificateProcessed = n.certificateProcessed) :
    (d.editNdpi f).ndpi.certificateProcessed = d.ndpi.certificateProcessed := by
  unfold Det.ndpi Det.editNdpi
  simp only [Det.edit_flow]
  cases d.flow.ndpiFlow with
  | none => rfl
  | some n => exact same n

theorem offers_editNdpi {f : NdpiFlow → NdpiFlow}
    (same : ∀ n : NdpiFlow, ((f n).certificateProcessed, (f n).negotiatedAlpn) =
      (n.certificateProcessed, n.negotiatedAlpn)) :
    (d.editNdpi f).ndpi.certificateProcessed = d.ndpi.certificateProcessed ∧
      (d.editNdpi f).ndpi.negotiatedAlpn = d.ndpi.negotiatedAlpn := by
  simp only [Prod.mk.injEq] at same
  unfold Det.ndpi Det.editNdpi
  simp only [Det.edit_flow]
  cases d.flow.ndpiFlow with
  | none => exact ⟨rfl, rfl⟩
  | some n => exact same n

/-- The flow once the client's list has been looked at. -/
structure Advertised (s : Services) (d : Det) (x z : Det × Bool) : Prop where
  result : z.2 = x.2
  updated : z.1.flow.flags.detectionUpdated =
    (x.1.flow.flags.detectionUpdated || decide (Crossed d ∧ Refines s d))
  protocol : z.1.flow.detectedProtocol =
    if Crossed d then refined s d else d.flow.detectedProtocol
  server : z.1.flow.tlsAlpnServer =
    d.flow.tlsAlpnServer ++ if Crossed d then (taken d).toList else []
  serverSet : z.1.flow.tlsAlpnServerSet = (d.flow.tlsAlpnServerSet || decide (Crossed d))
  init : z.1.flow.flags.detectionInit = d.flow.flags.detectionInit
  offers : z.1.ndpi.certificateProcessed = d.ndpi.certificateProcessed ∧
    z.1.ndpi.negotiatedAlpn = d.ndpi.negotiatedAlpn

theorem advertised_spec {x : Det × Bool} (same : steady x.1 = steady d) :
    Advertised s d x (advertisedAlpns s x) := by
  simp only [steady, Steady.mk.injEq, Prod.mk.injEq] at same
  obtain ⟨protocol, init, _, certificate, advertised, negotiated, ⟨_, set⟩, server, serverSet⟩ := same
  unfold advertisedAlpns
  cases list : x.1.ndpi.advertisedAlpns with
  | none =>
    have away : ¬ Crossed d := by
      rintro ⟨some, _⟩
      rw [← advertised, list] at some
      cases some
    exact ⟨rfl, by simp [away], by simp [away, protocol], by simp [away, server],
      by simp [away, serverSet], init, certificate, negotiated⟩
  | some alpns =>
    simp only
    have offers : ∀ e : Det, e.flow.ndpiFlow = x.1.flow.ndpiFlow →
        (e.editNdpi fun n => { n with advertisedAlpns := none }).ndpi.certificateProcessed =
          d.ndpi.certificateProcessed ∧
        (e.editNdpi fun n => { n with advertisedAlpns := none }).ndpi.negotiatedAlpn =
          d.ndpi.negotiatedAlpn := by
      intro e alike
      rw [← certificate, ← negotiated, ← ndpi_of_flow alike]
      exact offers_editNdpi fun _ => rfl
    cases new : d.flow.tlsAlpnSet with
    | false =>
      have away : ¬ Crossed d := by simp [Crossed, new]
      have branch : true = true ∧ x.1.flow.tlsAlpnSet = false := ⟨rfl, set.trans new⟩
      unfold processAlpn
      rw [if_pos branch]
      exact ⟨rfl, by simp [away, Det.editNdpi], by simp [away, protocol, Det.editNdpi],
        by simp [away, server, Det.editNdpi], by simp [away, serverSet, Det.editNdpi], init,
        offers _ rfl⟩
    | true =>
      have old : true = true → x.1.flow.tlsAlpnSet = true := fun _ => set.trans new
      cases free : d.flow.tlsAlpnServerSet with
      | true =>
        have away : ¬ Crossed d := by simp [Crossed, free]
        rw [processAlpn_keeps old (serverSet.trans free)]
        exact ⟨rfl, by simp [away, Det.editNdpi], by simp [away, protocol, Det.editNdpi],
          by simp [away, server, Det.editNdpi], by simp [away, serverSet, free, Det.editNdpi], init,
          offers _ rfl⟩
      | false =>
        have crossed : Crossed d := ⟨by rw [← advertised, list]; rfl, new, free⟩
        have chosen : taken d = some alpns := by
          simp [taken, free, new, ← advertised, list]
        obtain ⟨result, updated, refines, list', listSet, flags, ndpi⟩ :=
          processAlpn_takes alpns old (serverSet.trans free)
        have decided : (processAlpn s alpns true x.1).2 = decide (Refines s d) := by
          rw [result, protocol]
          simp [Refines, chosen]
        refine ⟨rfl, ?_, ?_, ?_, ?_, flags.trans init, offers _ ndpi⟩
        · simp only [Det.editNdpi, Det.edit_flow, updated, decided, crossed, true_and]
        · simp [Det.editNdpi, refines, crossed, refined, chosen, protocol]
        · simp [Det.editNdpi, list', crossed, chosen, server]
        · simp [Det.editNdpi, listSet, crossed]

theorem chosen_spec {x z : Det × Bool} (advertised : Advertised s d x z) :
    Chosen s d x (negotiatedAlpn s z) := by
  obtain ⟨result, updated, protocol, server, serverSet, init, certificate, negotiated⟩ := advertised
  have away : ∀ alpn, d.ndpi.negotiatedAlpn = some alpn → ¬ Crossed d →
      d.flow.tlsAlpnServerSet = false → taken d = some alpn := by
    intro alpn choice apart free
    unfold taken
    rw [free, choice]
    split
    · cases ‹_›
    · rw [if_neg fun both => apart ⟨both.1, both.2, free⟩]
  unfold negotiatedAlpn
  rw [negotiated]
  cases choice : d.ndpi.negotiatedAlpn with
  | none =>
    have whose : ¬ Crossed d → taken d = none := by
      intro apart
      unfold taken
      split
      · rfl
      · rename_i free
        rw [if_neg fun both => apart ⟨both.1, both.2, by simpa using free⟩, choice]
    by_cases crossed : Crossed d
    · simp only [crossed, true_and, if_true] at updated protocol server
      exact ⟨by simp [choice, result], updated, protocol, server, init, certificate⟩
    · simp only [crossed, false_and, if_false, decide_false, Bool.or_false] at updated protocol server
      have none := whose crossed
      exact ⟨by simp [choice, result], by simp [Refines, none, updated],
        by simp [refined, none, protocol], by simp [none, server], init, certificate⟩
  | some alpn =>
    simp only
    have keeps : ∀ e : Det, e.flow.ndpiFlow = z.1.flow.ndpiFlow →
        (e.editNdpi fun n => { n with negotiatedAlpn := none }).ndpi.certificateProcessed =
          d.ndpi.certificateProcessed := by
      intro e alike
      rw [← certificate, ← ndpi_of_flow alike]
      exact certificate_editNdpi fun _ => rfl
    have old : false = true → z.1.flow.tlsAlpnSet = true := fun no => by cases no
    by_cases crossed : Crossed d
    · simp only [crossed, true_and, if_true] at updated protocol server
      rw [processAlpn_keeps old (by simp [serverSet, crossed])]
      exact ⟨by simp [choice, crossed], updated, protocol, server, init, keeps _ rfl⟩
    · simp only [crossed, false_and, if_false, decide_false, Bool.or_false, List.append_nil]
        at updated protocol server serverSet
      cases free : d.flow.tlsAlpnServerSet with
      | true =>
        have none : taken d = none := by simp [taken, free]
        rw [processAlpn_keeps old (serverSet.trans free)]
        exact ⟨by simp [choice, Refines, none], by simp [Refines, none, updated, Det.editNdpi],
          by simp [refined, none, protocol, Det.editNdpi], by simp [none, server, Det.editNdpi],
          init, keeps _ rfl⟩
      | false =>
        have chosen := away alpn choice crossed free
        obtain ⟨result', updated', refines, list, _, flags, ndpi⟩ :=
          processAlpn_takes alpn old (serverSet.trans free)
        have decided : (processAlpn s alpn false z.1).2 = decide (Refines s d) := by
          rw [result', protocol]
          simp [Refines, chosen]
        refine ⟨?_, ?_, ?_, ?_, flags.trans init, keeps _ ndpi⟩
        · simp [choice, crossed, decided]
        · simp only [Det.editNdpi, Det.edit_flow, updated', decided, updated]
        · simp [Det.editNdpi, refines, refined, chosen, protocol]
        · simp [Det.editNdpi, list, chosen, server]

/-! ## All updates -/

/-- What the updates of an initialised flow amount to. -/
structure Updated (s : Services) (d : Det) (y : Det × Bool) : Prop where
  flagged : y.1.flow.flags.detectionUpdated = true ∧ y.2 = false ↔ Tls d ∧ Forgotten s d
  server : y.1.flow.tlsAlpnServer =
    d.flow.tlsAlpnServer ++ if Tls d then (taken d).toList else []
  protocol : Tls d → y.1.flow.detectedProtocol = refined s d
  init : y.1.flow.flags.detectionInit = d.flow.flags.detectionInit
  certificate : y.1.ndpi.certificateProcessed = d.ndpi.certificateProcessed
  announced : announced y.1 = announced d

theorem updated_tls (tls : Tls d) (cleared : d.flow.flags.detectionUpdated = false) :
    Updated s d (tlsUpdates s d) := by
  obtain ⟨found, flag, same, announced⟩ := asked_found s d
  have finds : (MetadataUpdates.found s d).2 = decide (Finds s d) := by
    apply Bool.eq_iff_iff.mpr
    rw [found, decide_eq_true_iff]
    exact or_iff_right (by simp)
  obtain ⟨result, updated, protocol, server, init, certificate⟩ := chosen_spec (advertised_spec same)
  rw [← tlsUpdates_eq] at result updated protocol server init certificate
  refine ⟨?_, by simp [server, tls], fun _ => protocol, init, certificate, ?_⟩
  · rw [updated, flag cleared, finds, result, finds]
    simp only [tls, true_and, Forgotten]
    cases d.ndpi.negotiatedAlpn.isSome <;> by_cases Finds s d <;> by_cases Refines s d <;>
      by_cases Crossed d <;> simp_all
  · rw [tlsUpdates_eq]
    exact (announced_alpns _).trans announced

/-- The other branches look at one source and keep what it said. -/
theorem updated_plain {y : Det × Bool} (plain : ¬ Tls d)
    (flag : y.1.flow.flags.detectionUpdated = y.2)
    (server : y.1.flow.tlsAlpnServer = d.flow.tlsAlpnServer)
    (init : y.1.flow.flags.detectionInit = d.flow.flags.detectionInit)
    (certificate : y.1.ndpi.certificateProcessed = d.ndpi.certificateProcessed)
    (announced : announced y.1 = announced d) : Updated s d y := by
  refine ⟨?_, by simp [server, plain], fun tls => absurd tls plain, init, certificate, announced⟩
  rw [flag]
  simp [plain]

theorem updated_updates (s : Services) (d : Det) :
    Updated s (setUpdated false d) (updates s d) := by
  unfold updates
  simp only
  split
  · rename_i tls
    exact updated_tls tls rfl
  · rename_i plain
    split
    · unfold mdnsUpdate
      split
      · exact updated_plain plain rfl rfl rfl rfl (announced_edit rfl)
      · exact updated_plain plain rfl rfl rfl rfl rfl
    · split
      · unfold sshUpdate
        split
        · exact updated_plain plain rfl rfl rfl rfl rfl
        · exact updated_plain plain rfl rfl rfl rfl
            ((announced_edit rfl).trans (announced_of_standing (stands_store _ _ _)))
      · exact updated_plain plain rfl rfl rfl rfl rfl

/-! ## The end of a call -/

/-- What neither `FlowUpdate` nor `SetDetectionComplete` changes. -/
def settled (d : Det) : Bool × List (List UInt8) :=
  (d.flow.flags.detectionUpdated, d.flow.tlsAlpnServer)

theorem settled_of_standing (same : d'.standing = d.standing) : settled d' = settled d := by
  have flow := congrArg Prod.fst same
  exact Prod.ext (congrArg Standing.updated flow) (congrArg (fun v => v.alpnServer.1) flow)

theorem settled_body {complete : Det → Except Entered Det}
    (keeps : ∀ e e', complete e = .ok e' → settled e' = settled e)
    (ran : FlowUpdate.body s complete d = .ok d') : settled d' = settled d := by
  obtain ⟨e, dissected, noted⟩ := bind_ok (enter_ok ran)
  cases noted
  have categories : settled (FlowUpdate.categories s d) = settled d :=
    settled_of_standing FlowUpdate.stands_categories
  unfold FlowUpdate.softDissect at dissected
  split at dissected
  · have overridden := settled_of_standing (FlowUpdate.stands_override (s := s)
      (d := FlowUpdate.categories s d) ‹_›)
    exact (keeps _ _ dissected).trans (overridden.trans categories)
  · cases dissected
    exact categories

theorem settled_setDetectionComplete (ran : setDetectionComplete s d = .ok d') :
    settled d' = settled d := by
  unfold setDetectionComplete at ran
  split at ran
  · cases ran
    rfl
  · obtain ⟨e, checked, updated⟩ := bind_ok ran
    have keeps : ∀ e e' : Det, Except.ok e = (.ok e' : Except Entered Det) →
        settled e' = settled e := by
      intro e e' same
      cases same
      rfl
    have risks : settled e = settled d := by
      split at checked
      · cases checked
        rfl
      · have same : settled e = settled d.markComplete :=
          settled_of_standing (stands_processRisks checked)
        exact same
    exact (settled_body keeps updated).trans risks

theorem settled_flowUpdate (ran : flowUpdate s d = .ok d') : settled d' = settled d :=
  settled_body (fun _ _ => settled_setDetectionComplete) ran

/-- A call ends with announcements if something was found or detection completes. -/
structure Concluded (asked : Bool) (x : Det × Bool) (d' : Det) : Prop where
  settled : settled d' = settled x.1
  announced : ∃ events, (announced d').2 = (announced x.1).2 ++ events ∧
    ((∃ event, Event.broadcast event ∈ events) ↔
      x.2 = true ∨ x.1.flow.flags.detectionComplete = false ∧
        x.1.flow.flags.detectionInit = true ∧ extraPackets asked x.1 = false)

theorem flowUpdate_broadcasts (ran : flowUpdate s d = .ok d') :
    ∃ events, (announced d').2 = (announced d).2 ++ events ∧
      ∃ event, Event.broadcast event ∈ events := by
  cases pending : d.flow.flags.detectionComplete with
  | true =>
    rw [flowUpdate_of_complete s pending] at ran
    exact ⟨_, congrArg Prod.snd (body_complete pending ran), _, List.mem_singleton_self _⟩
  | false =>
    have told := flowUpdate_announced pending ran
    split at told
    · obtain ⟨event, _, told⟩ := told
      exact ⟨_, congrArg Prod.snd told, _, List.mem_singleton_self _⟩
    · exact ⟨_, congrArg Prod.snd told, _, List.mem_cons_self⟩

theorem concluded_conclude {asked : Bool} {x : Det × Bool} (ran : conclude s asked x = .ok d') :
    Concluded asked x d' := by
  obtain ⟨e, updated, completed⟩ := bind_ok ran
  have last : settled d' = settled e := by
    split at completed
    · exact settled_setDetectionComplete completed
    · cases completed
      rfl
  have more : ∃ events, (announced d').2 = (announced e).2 ++ events := by
    split at completed
    · cases pending : e.flow.flags.detectionComplete with
      | true =>
        rw [setDetectionComplete_of_complete s pending] at completed
        cases completed
        exact ⟨[], (List.append_nil _).symm⟩
      | false => exact ⟨_, congrArg Prod.snd (setDetectionComplete_announced pending completed)⟩
    · cases completed
      exact ⟨[], (List.append_nil _).symm⟩
  cases flag : x.2 with
  | true =>
    rw [flag, if_pos rfl] at updated
    obtain ⟨events, told, event, here⟩ := flowUpdate_broadcasts updated
    obtain ⟨later, told'⟩ := more
    refine ⟨last.trans (settled_flowUpdate updated), events ++ later, ?_, ?_⟩
    · rw [told', told, List.append_assoc]
    · simp only [flag, true_or, iff_true]
      exact ⟨event, List.mem_append_left _ here⟩
  | false =>
    rw [flag] at updated
    cases updated
    refine ⟨last, ?_⟩
    split at completed
    · rename_i ends
      cases pending : x.1.flow.flags.detectionComplete with
      | true =>
        rw [setDetectionComplete_of_complete s pending] at completed
        cases completed
        exact ⟨[], (List.append_nil _).symm, by simp [flag]⟩
      | false =>
        have told := setDetectionComplete_announced pending completed
        refine ⟨_, congrArg Prod.snd told, ?_⟩
        simp [flag, ends]
    · rename_i goesOn
      cases completed
      refine ⟨[], (List.append_nil _).symm, ?_⟩
      simpa [flag] using fun _ init => by simpa [init] using goesOn

/-! ## One call -/

/-- The call announces something. -/
def Announces (d d' : Det) : Prop := ∃ event, Event.broadcast event ∈ d'.log.drop d.log.length

/-- An update that the call stores and flags is announced by the same call. -/
def Kept (s : Services) (packet : Option Nat) (a : Answer) (d d' : Det) : Prop :=
  Stores s (ready s packet a d) ∧ d'.flow.flags.detectionUpdated = true → Announces d d'

/-- What the call takes for the server's choice is what the server chose. -/
def Negotiated (a : Answer) (d d' : Det) : Prop :=
  ∀ alpn ∈ d'.flow.tlsAlpnServer.drop d.flow.tlsAlpnServer.length,
    a.ndpiFlow.negotiatedAlpn = some alpn

/-- The call takes the client's list, and it is not what the server chose. -/
def Mistaken (d : Det) : Prop :=
  Tls d ∧ Crossed d ∧ d.ndpi.advertisedAlpns ≠ d.ndpi.negotiatedAlpn

instance (d : Det) : Decidable (Mistaken d) := inferInstanceAs (Decidable (_ ∧ _ ∧ _ ≠ _))

theorem mapProtocol_same (stun : Nat) (a : Answer) :
    (mapProtocol s stun a d).flow.flags = d.flow.flags ∧
      (mapProtocol s stun a d).flow.ndpiFlow = d.flow.ndpiFlow := by
  have unknown : ∀ (id : Nat) (e : Det), (whileUnknown s id e).flow.flags = e.flow.flags ∧
      (whileUnknown s id e).flow.ndpiFlow = e.flow.ndpiFlow := by
    intro id e
    unfold whileUnknown
    split <;> exact ⟨rfl, rfl⟩
  have stun : (refineStun s stun a d).flow.flags = d.flow.flags ∧
      (refineStun s stun a d).flow.ndpiFlow = d.flow.ndpiFlow := by
    unfold refineStun
    split
    · split <;> exact ⟨rfl, rfl⟩
    · exact ⟨rfl, rfl⟩
  unfold mapProtocol
  rw [(unknown _ _).1, (unknown _ _).1, (unknown _ _).2, (unknown _ _).2]
  exact stun

theorem handed_flags (packet : Option Nat) (a : Answer) :
    (handed s packet a d).flow.flags = d.flow.flags := by
  unfold handed
  rw [(mapProtocol_same _ a).1]
  unfold handOver allocate
  split <;> rfl

theorem handed_ndpi (packet : Option Nat) (a : Answer) :
    (handed s packet a d).ndpi = a.ndpiFlow := by
  unfold handed
  rw [ndpi_of_flow (mapProtocol_same _ a).2]
  have alive := handOver_ndpi packet a d
  unfold handOver Det.editNdpi at alive ⊢
  simp only [Det.note_flow, Det.edit_flow, Option.isSome_map] at alive
  obtain ⟨n, some⟩ := Option.isSome_iff_exists.mp alive
  unfold Det.ndpi
  simp only [Det.note_flow, Det.edit_flow, some]
  rfl

/-- What a call on an initialised flow does. -/
structure Called (s : Services) (d' : Det) (r : Det) (x : Det × Bool) : Prop where
  updated : Updated s r x
  concluded : Concluded r.ndpi.extraPackets x d'

theorem called_processPacket {packet : Option Nat} {a : Answer}
    (init : d.flow.flags.detectionInit = true) (done : processPacket s packet a d = .ok d') :
    Called s d' (ready s packet a d) (updates s (handed s packet a d)) := by
  obtain ⟨x, looked, ran⟩ := bind_ok done
  have here : (handed s packet a d).flow.flags.detectionInit = true := by
    rw [handed_flags]
    exact init
  have known : inspect s (handed s packet a d) = .ok (updates s (handed s packet a d)) := by
    unfold inspect
    rw [if_neg (by simp [here]), if_pos here]
  cases looked.symm.trans known
  exact ⟨updated_updates s _, concluded_conclude ran⟩

theorem processPacket_log {packet : Option Nat} {a : Answer}
    (done : processPacket s packet a d = .ok d') : ∃ events, d'.log = d.log ++ events := by
  obtain ⟨e, ran, traced⟩ := processPacket_spec s packet a d
  cases ran.symm.trans done
  obtain ⟨before, log, _⟩ := DetectionEntry.handOver_log (d := d) packet a
  obtain ⟨after, log', _⟩ := traced.logged
  exact ⟨before ++ [.handOver packet] ++ after, by rw [log', log]; simp only [List.append_assoc]⟩

/-- **An update is kept exactly if it is not lost.** -/
theorem kept_iff {packet : Option Nat} {a : Answer} (init : d.flow.flags.detectionInit = true)
    (done : processPacket s packet a d = .ok d') :
    Kept s packet a d d' ↔ ¬ Lost s (ready s packet a d) := by
  obtain ⟨updated, settledAll, events, told, broadcasts⟩ := called_processPacket init done
  have before : announced (ready s packet a d) = announced d :=
    (announced_edit rfl).trans (announced_handed packet a)
  have announces : Announces d d' ↔ ∃ event, Event.broadcast event ∈ events := by
    obtain ⟨logged, log⟩ := processPacket_log done
    have same : logged.filter Announcements.announces = events := by
      rw [updated.announced, before, announced, announced, log, List.filter_append] at told
      exact List.append_cancel_left told
    rw [Announces, log, List.drop_left, ← same]
    simp [Announcements.announces]
  have flag := congrArg Prod.fst settledAll
  have complete := congrArg Prod.fst updated.announced
  simp only [settled] at flag
  simp only [announced] at complete
  have started : (ready s packet a d).flow.flags.detectionInit = true :=
    (congrArg FlowFlags.detectionInit (handed_flags packet a)).trans init
  have extra : Tls (ready s packet a d) →
      extraPackets (ready s packet a d).ndpi.extraPackets (updates s (handed s packet a d)).1 =
        extraPackets (ready s packet a d).ndpi.extraPackets ((ready s packet a d).edit
          fun flow => { flow with detectedProtocol := refined s (ready s packet a d) }) := by
    intro tls
    unfold extraPackets Flow.getMasterProtocol
    rw [updated.protocol tls, updated.certificate]
    rfl
  unfold Kept
  rw [announces, broadcasts, flag, updated.init, started, complete]
  constructor
  · rintro kept ⟨tls, forgotten, silent⟩
    obtain ⟨flagged, result⟩ := updated.flagged.mpr ⟨tls, forgotten⟩
    have stores : Stores s (ready s packet a d) := by
      rw [Stores, if_pos tls]
      have chosen : Refines s (ready s packet a d) → (taken (ready s packet a d)).isSome := by
        rintro ⟨alpn, choice, _⟩
        exact Option.isSome_of_mem choice
      rcases forgotten with ⟨_, found | refines, _⟩ | ⟨_, _, refines⟩
      · exact .inl found
      · exact .inr (.inl (chosen refines))
      · exact .inr (.inl (chosen refines))
    rcases kept ⟨stores, flagged⟩ with told | ⟨pending, _, ends⟩
    · rw [result] at told
      cases told
    · rw [extra tls] at ends
      rcases silent with done | more
      · rw [pending] at done
        cases done
      · rw [ends] at more
        cases more
  · rintro free ⟨_, flagged⟩
    cases result : (updates s (handed s packet a d)).2 with
    | true => exact .inl rfl
    | false =>
      obtain ⟨tls, forgotten⟩ := updated.flagged.mp ⟨flagged, result⟩
      have silent := fun reason => free ⟨tls, forgotten, reason⟩
      rw [extra tls]
      exact .inr ⟨by simpa using fun done => silent (.inl done), rfl,
        by simpa using fun more => silent (.inr more)⟩

/-- What a call appends to the values taken for the server's choice. -/
theorem called_server {packet : Option Nat} {a : Answer}
    (init : d.flow.flags.detectionInit = true) (done : processPacket s packet a d = .ok d') :
    d'.flow.tlsAlpnServer = d.flow.tlsAlpnServer ++
      if Tls (ready s packet a d) then (taken (ready s packet a d)).toList else [] := by
  obtain ⟨updated, settledAll, _⟩ := called_processPacket init done
  have standing : (handed s packet a d).standing = d.standing :=
    (stands_mapProtocol _ _).trans ((stands_handOver _ _).trans stands_allocate)
  have before : (ready s packet a d).flow.tlsAlpnServer = d.flow.tlsAlpnServer :=
    congrArg (fun view => view.1.alpnServer.1) standing
  rw [← before]
  exact (congrArg Prod.snd settledAll).trans updated.server

/-- The values a call takes are what the server chose, unless the client's list
is mistaken for it. -/
theorem negotiated_iff {packet : Option Nat} {a : Answer}
    (init : d.flow.flags.detectionInit = true) (done : processPacket s packet a d = .ok d') :
    Negotiated a d d' ↔ ¬ Mistaken (ready s packet a d) := by
  have ndpi : (ready s packet a d).ndpi = a.ndpiFlow := handed_ndpi packet a
  rw [Negotiated, called_server init done, List.drop_left, Mistaken, ndpi]
  by_cases tls : Tls (ready s packet a d)
  · by_cases crossed : Crossed (ready s packet a d)
    · obtain ⟨some, set, free⟩ := crossed
      rw [ndpi] at some
      obtain ⟨alpns, list⟩ := Option.isSome_iff_exists.mp some
      have chosen : taken (ready s packet a d) = Option.some alpns := by
        simp [taken, free, set, ndpi, list]
      have crossed : Crossed (ready s packet a d) := ⟨by simp [ndpi, list], set, free⟩
      simp [tls, crossed, chosen, list, eq_comm]
    · have choice : ∀ alpn ∈ taken (ready s packet a d), a.ndpiFlow.negotiatedAlpn = some alpn := by
        intro alpn here
        unfold taken at here
        rw [ndpi] at here
        split at here
        · cases here
        · rename_i free
          split at here
          · rename_i both
            exact absurd ⟨by rw [ndpi]; exact both.1, both.2, by simpa using free⟩ crossed
          · exact here
      simpa [tls, crossed] using choice
  · simp [tls]

end

/-! ## Sequences of calls -/

/-- A flow in a sequence of calls, and what nDPI reported as the server's choice. -/
structure Calls where
  det : Det
  negotiated : List (List UInt8) := []

structure Call where
  services : Services
  packet : Option Nat
  answer : Answer

/-- One call of `ProcessPacket` on an initialised flow. -/
def step (t : Calls) (call : Call) : Option Calls :=
  if t.det.flow.flags.detectionInit then
    (processPacket call.services call.packet call.answer t.det).toOption.map fun d =>
      ⟨d, t.negotiated ++ call.answer.ndpiFlow.negotiatedAlpn.toList⟩
  else none

/-- The flow as the sources find it in a call. -/
def Call.ready (call : Call) (t : Calls) : Det :=
  MetadataUpdates.ready call.services call.packet call.answer t.det

/-- A call that loses no update and mistakes no list for the server's choice. -/
def Careful (t : Calls) (call : Call) : Prop :=
  ¬ Lost call.services (call.ready t) ∧ ¬ Mistaken (call.ready t)

instance : DecidableRel Careful := fun _ _ => inferInstanceAs (Decidable (¬ _ ∧ ¬ _))

section
variable {t t' : Calls} {call : Call}

theorem step_some (done : step t call = some t') :
    t.det.flow.flags.detectionInit = true ∧
      processPacket call.services call.packet call.answer t.det = .ok t'.det ∧
      t'.negotiated = t.negotiated ++ call.answer.ndpiFlow.negotiatedAlpn.toList := by
  unfold step at done
  split at done
  · rename_i init
    obtain ⟨d, ran, rfl⟩ := Option.map_eq_some_iff.mp done
    refine ⟨init, ?_, rfl⟩
    cases result : processPacket call.services call.packet call.answer t.det with
    | ok d' =>
      rw [result] at ran
      cases ran
      rfl
    | error fault =>
      rw [result] at ran
      cases ran
  · cases done

theorem server_step {first : List (List UInt8)}
    (known : ∀ alpn ∈ t.det.flow.tlsAlpnServer, alpn ∈ first ∨ alpn ∈ t.negotiated)
    (done : step t call = some t') (careful : Careful t call) :
    ∀ alpn ∈ t'.det.flow.tlsAlpnServer, alpn ∈ first ∨ alpn ∈ t'.negotiated := by
  obtain ⟨init, ran, history⟩ := step_some done
  have negotiated := (negotiated_iff init ran).mpr careful.2
  have server := called_server init ran
  intro alpn here
  rw [history]
  by_cases old : alpn ∈ t.det.flow.tlsAlpnServer
  · exact (known alpn old).imp_right (List.mem_append_left _)
  · refine .inr (List.mem_append_right _ ?_)
    rw [server] at here
    have new := (List.mem_append.mp here).resolve_left old
    rw [Negotiated, server, List.drop_left] at negotiated
    simp [negotiated alpn new]

end

/-- **Updates are kept and the client's list is never taken** in a sequence of
careful calls, and a call keeps each of the two exactly if it is careful in
that respect. -/
theorem updates_kept (d : Det) (t : Calls) (reached : Reaches step Careful ⟨d, []⟩ t) :
    (∀ alpn ∈ t.det.flow.tlsAlpnServer,
      alpn ∈ d.flow.tlsAlpnServer ∨ alpn ∈ t.negotiated) ∧
    ∀ call t', step t call = some t' →
      (Kept call.services call.packet call.answer t.det t'.det ↔
        ¬ Lost call.services (call.ready t)) ∧
      (Negotiated call.answer t.det t'.det ↔ ¬ Mistaken (call.ready t)) := by
  refine ⟨?_, fun call t' done => ?_⟩
  · exact reached.invariant (I := fun t => ∀ alpn ∈ t.det.flow.tlsAlpnServer,
      alpn ∈ d.flow.tlsAlpnServer ∨ alpn ∈ t.negotiated) (fun _ here => .inl here)
      fun _ _ _ known done careful => server_step known done careful
  · obtain ⟨init, ran, _⟩ := step_some done
    exact ⟨kept_iff init ran, negotiated_iff init ran⟩

/-- A TLS flow after its first packet. -/
def tlsFlow : Flow where
  detectedProtocol := Proto.tls
  flags := { detectionInit := true }

/-- nDPI has found `n`, and wants more packets. -/
def Call.finding (n : NdpiFlow) : Call :=
  ⟨.bare, some 0, ⟨0, 0, { n with extraPackets := true }⟩⟩

/-- The cipher suite and the server's choice arrive in two packets. -/
theorem updates_kept_apart : ∃ t, Reaches step Careful ⟨⟨tlsFlow, []⟩, []⟩ t ∧
    t.det.flow.tlsAlpnServer = [[104, 50]] ∧
    ∀ alpn ∈ t.det.flow.tlsAlpnServer, alpn ∈ tlsFlow.tlsAlpnServer ∨ alpn ∈ t.negotiated := by
  have found : (exec step Careful ⟨⟨tlsFlow, []⟩, []⟩ [.finding { serverCipher := 4865 },
      .finding { negotiatedAlpn := some [104, 50] }]).any
        (fun t => t.det.flow.tlsAlpnServer = [[104, 50]]) = true := by decide +kernel
  obtain ⟨t, reached, server⟩ := reached_of_exec found
  exact ⟨t, reached, of_decide_eq_true server, (updates_kept ⟨tlsFlow, []⟩ t reached).1⟩

/-- Both at once: the cipher suite is stored and flagged and nothing is announced.
A client's list that arrives twice becomes the server's choice. -/
theorem update_lost :
    (¬ ∀ (t t' : Calls) (call : Call), step t call = some t' →
      t'.det.flow.metadata ≠ t.det.flow.metadata ∧
        t'.det.flow.flags.detectionUpdated = true → Announces t.det t'.det) ∧
    ¬ ∀ (d : Det) (t : Calls), Reaches step Always ⟨d, []⟩ t →
      ∀ alpn ∈ t.det.flow.tlsAlpnServer, alpn ∈ d.flow.tlsAlpnServer ∨ alpn ∈ t.negotiated := by
  constructor
  · intro claim
    have found : (step ⟨⟨tlsFlow, []⟩, []⟩
        (.finding { serverCipher := 4865, negotiatedAlpn := some [104, 50] })).any fun t =>
          (t.det.flow.metadata.area Layout.sslCipherSuite).val ≠
            (tlsFlow.metadata.area Layout.sslCipherSuite).val ∧
          t.det.flow.flags.detectionUpdated = true ∧
          t.det.log.all fun e => !Announcements.announces e := by decide +kernel
    obtain ⟨t, done, wrong⟩ := (Option.any_eq_true _ _).mp found
    obtain ⟨differ, flagged, quiet⟩ := of_decide_eq_true wrong
    have changed : t.det.flow.metadata ≠ tlsFlow.metadata := fun same => differ (by rw [same])
    obtain ⟨event, here⟩ := claim _ _ _ done ⟨changed, flagged⟩
    have loud := List.all_eq_true.mp quiet _ (List.mem_of_mem_drop here)
    cases loud
  · intro claim
    have found : (exec step Always ⟨⟨tlsFlow, []⟩, []⟩
        [.finding { advertisedAlpns := some [104, 50] },
          .finding { advertisedAlpns := some [104, 50] }]).any (fun t =>
            [104, 50] ∈ t.det.flow.tlsAlpnServer ∧ t.negotiated = []) = true := by decide +kernel
    obtain ⟨t, reached, wrong⟩ := reached_of_exec found
    obtain ⟨here, none⟩ := of_decide_eq_true wrong
    have told := claim _ t reached _ here
    rw [none] at told
    simp [tlsFlow] at told

end NetifyAgent.MetadataUpdates
