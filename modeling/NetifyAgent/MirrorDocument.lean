import NetifyAgent.FlowDocument

/-! The document of a flow does not tell which end was seen first. The ends have two sets of
names, and `lower_map` gives each end the set of its side, so that the mirror image makes the
same assignments as the flow with those of the two ends exchanged; two members of one document
may be assigned in either order. A document that was empty takes every assignment: no name of a
member that has members of its own is the name of any other. -/
namespace NetifyAgent

/-! ## Mirror images -/

/-- The statistics of the two ends exchanged. -/
def FlowStats.mirror (stats : FlowStats) : FlowStats :=
  { stats with
    lowerBytes := stats.upperBytes
    upperBytes := stats.lowerBytes
    lowerPackets := stats.upperPackets
    upperPackets := stats.lowerPackets }

def EncodedStats.mirror (stats : EncodedStats) : EncodedStats :=
  { stats with
    toFlowStats := stats.toFlowStats.mirror
    lowerRate := stats.upperRate
    upperRate := stats.lowerRate }

/-- The flow as it is when its upper end is the lower one. -/
def EncodedFlow.mirror (flow : EncodedFlow) : EncodedFlow :=
  { flow with
    toExprFlow := { flow.toExprFlow.mirror with stats := flow.stats.mirror }
    lowerMacText := flow.upperMacText
    upperMacText := flow.lowerMacText
    lowerAddrText := flow.upperAddrText
    upperAddrText := flow.lowerAddrText }

theorem EncodedFlow.mirror_mirror (flow : EncodedFlow) : flow.mirror.mirror = flow := by
  have map : flow.lowerMap.mirror.mirror = flow.lowerMap := by cases flow.lowerMap <;> rfl
  have origin : flow.origin.mirror.mirror = flow.origin := by cases flow.origin <;> rfl
  simp only [EncodedFlow.mirror, ExprFlow.mirror, FlowStats.mirror, map, origin]

namespace MirrorDocument
open EncodedFlow

variable {v : EncodeServices}

/-! ## Assignments in either order -/

/-- Two sequences of calls leave the same document, or both throw. -/
def SameEffect (v : EncodeServices) (calls calls' : List SerializeCall) : Prop :=
  ∀ j, serializeAll v calls j = serializeAll v calls' j

theorem SameEffect.refl (calls : List SerializeCall) : SameEffect v calls calls := fun _ => rfl

theorem serializeAll_append (calls calls' : List SerializeCall) (j : Json) :
    serializeAll v (calls ++ calls') j = (serializeAll v calls j).bind (serializeAll v calls') :=
  List.foldlM_append

theorem SameEffect.append {first first' second second' : List SerializeCall}
    (same : SameEffect v first first') (same' : SameEffect v second second') :
    SameEffect v (first ++ second) (first' ++ second') := by
  intro j
  rw [serializeAll_append, serializeAll_append, same j]
  exact congrArg _ (funext same')

theorem SameEffect.callsIf {calls calls' : List SerializeCall} (same : SameEffect v calls calls')
    (condition : Bool) : SameEffect v (callsIf condition calls) (callsIf condition calls') := by
  cases condition with
  | true => exact same
  | false => exact .refl []

/-- Two members of one document may be assigned in either order. -/
theorem assign_comm {key key' : List Char} (apart : key ≠ key') (value value' j : Json) :
    ((j.assign key value).bind fun j => j.assign key' value') =
      (j.assign key' value').bind fun j => j.assign key value := by
  unfold Json.assign
  cases j.members with
  | none => rfl
  | some entries =>
    simp only [Option.map_some, Option.bind_some, Json.members, OrderedMap.put_comm apart]

theorem serialize_comm {key key' : String} (apart : key ≠ key') (x x' : Serialized) (j : Json) :
    (serialize v ([key], x) j).bind (serialize v ([key'], x')) =
      (serialize v ([key'], x') j).bind (serialize v ([key], x)) := by
  have apart : key.toList ≠ key'.toList := fun same => apart (String.toList_injective same)
  unfold serialize
  cases x.toJson v with
  | none => cases x'.toJson v <;> simp
  | some value =>
    cases x'.toJson v with
    | none => simp
    | some value' => exact assign_comm apart value value' j

/-- The calls for the two ends may be made in either order. -/
theorem sameEffect_reverse {key key' : String} (apart : key ≠ key') (x x' : Serialized) :
    SameEffect v [([key'], x'), ([key], x)] [([key], x), ([key'], x')] := by
  intro j
  have pair (a b : SerializeCall) :
      serializeAll v [a, b] j = (serialize v a j).bind (serialize v b) := by
    simp [serializeAll]
  rw [pair, pair]
  exact serialize_comm (Ne.symm apart) x' x j

/-! ## The names of the ends -/

/-- The names with those of the two ends exchanged. -/
def swap (keys : EndKeys) : EndKeys where
  lowerMac := keys.upperMac
  upperMac := keys.lowerMac
  lowerIp := keys.upperIp
  upperIp := keys.lowerIp
  lowerPort := keys.upperPort
  upperPort := keys.lowerPort
  lowerBytes := keys.upperBytes
  upperBytes := keys.lowerBytes
  lowerPackets := keys.upperPackets
  upperPackets := keys.lowerPackets
  lowerRate := keys.upperRate
  upperRate := keys.lowerRate

theorem endKeys_mirror {m : LowerMap} (known : m ≠ .unknown) :
    endKeys m.mirror = swap (endKeys m) := by
  cases m with
  | unknown => exact absurd rfl known
  | local_ => rfl
  | other => rfl

/-- No two ends share a name, and one of them is the local one. -/
structure Apart (keys : EndKeys) : Prop where
  mac : keys.lowerMac ≠ keys.upperMac
  ip : keys.lowerIp ≠ keys.upperIp
  port : keys.lowerPort ≠ keys.upperPort
  bytes : keys.lowerBytes ≠ keys.upperBytes
  packets : keys.lowerPackets ≠ keys.upperPackets
  rate : keys.lowerRate ≠ keys.upperRate
  sides : keys.upperIp = "local_ip" ↔ keys.lowerIp ≠ "local_ip"

theorem apart_endKeys (m : LowerMap) : Apart (endKeys m) := by
  cases m <;> constructor <;> decide

/-! ## The sections of the document -/

section
variable {flow : EncodedFlow} {stats : EncodedStats} {keys : EndKeys}

theorem encodeOrigin_mirror (started : flow.origin ≠ .unknown) (apart : Apart keys) :
    flow.mirror.encodeOrigin (swap keys) = flow.encodeOrigin keys := by
  have turned : flow.mirror.origin = flow.origin.mirror := rfl
  unfold encodeOrigin
  rw [turned]
  cases side : flow.origin with
  | unknown => exact absurd side started
  | lower =>
    simp only [Origin.mirror, swap, apart.sides]
    by_cases here : keys.lowerIp = "local_ip" <;> simp [here]
  | upper =>
    simp only [Origin.mirror, swap, apart.sides]
    by_cases here : keys.lowerIp = "local_ip" <;> simp [here]

/-- What is said of the ends is said of the same ends by the same names. -/
theorem encodeEnds_mirror (clear : flow.privateLower = false ∧ flow.privateUpper = false)
    (apart : Apart keys) :
    SameEffect v (flow.mirror.encodeMacs v (swap keys) ++ flow.mirror.encodeIps v (swap keys) ++
        flow.mirror.encodePorts (swap keys))
      (flow.encodeMacs v keys ++ flow.encodeIps v keys ++ flow.encodePorts keys) := by
  have lower : flow.mirror.privateLower = false := clear.1
  have upper : flow.mirror.privateUpper = false := clear.2
  have macs : SameEffect v (flow.mirror.encodeMacs v (swap keys)) (flow.encodeMacs v keys) := by
    unfold encodeMacs
    simp only [lower, upper, clear.1, clear.2, Bool.false_eq_true, if_false]
    exact sameEffect_reverse apart.mac _ _
  have ips : SameEffect v (flow.mirror.encodeIps v (swap keys)) (flow.encodeIps v keys) := by
    unfold encodeIps
    simp only [lower, upper, clear.1, clear.2, Bool.false_eq_true, if_false]
    exact sameEffect_reverse apart.ip _ _
  exact (macs.append ips).append (sameEffect_reverse apart.port _ _)

theorem encodeMetadata_mirror (started : flow.origin ≠ .unknown)
    (clear : flow.privateLower = false ∧ flow.privateUpper = false) (apart : Apart keys) :
    SameEffect v (flow.mirror.encodeMetadata v (swap keys)) (flow.encodeMetadata v keys) := by
  have ends := encodeEnds_mirror (v := v) clear apart
  have key : flow.mirror.encodeKey v = flow.encodeKey v := rfl
  have rest : flow.mirror.encodeDetection ++ flow.mirror.encodeHttp v ++
      flow.mirror.encodeDhcp v ++ flow.mirror.encodeSsh v ++ flow.mirror.encodeSsl v ++
        flow.mirror.encodeMisc v ++ flow.mirror.encodeRisks =
      flow.encodeDetection ++ flow.encodeHttp v ++ flow.encodeDhcp v ++ flow.encodeSsh v ++
        flow.encodeSsl v ++ flow.encodeMisc v ++ flow.encodeRisks := rfl
  have first := (SameEffect.refl (v := v) (flow.encodeKey v ++ flow.encodeOrigin keys)).append ends
  have whole := first.append (.refl (flow.encodeDetection ++ flow.encodeHttp v ++
    flow.encodeDhcp v ++ flow.encodeSsh v ++ flow.encodeSsl v ++ flow.encodeMisc v ++
      flow.encodeRisks))
  unfold encodeMetadata
  rw [key, encodeOrigin_mirror started apart]
  simp only [List.append_assoc] at whole rest ⊢
  rw [rest]
  exact whole

theorem encodeStats_mirror (flow : EncodedFlow) (stats : EncodedStats) (apart : Apart keys) :
    SameEffect v (flow.mirror.encodeStats v stats.mirror (swap keys))
      (flow.encodeStats v stats keys) := by
  have bytes : SameEffect v (encodeBytes stats.mirror (swap keys)) (encodeBytes stats keys) :=
    sameEffect_reverse apart.bytes _ _
  have packets : SameEffect v (encodePackets stats.mirror (swap keys)) (encodePackets stats keys) :=
    sameEffect_reverse apart.packets _ _
  have rates : SameEffect v (encodeRates stats.mirror (swap keys)) (encodeRates stats keys) :=
    sameEffect_reverse apart.rate _ _
  have extended : SameEffect v (callsIf v.extendedStats
      (encodeRates stats.mirror (swap keys) ++ flow.mirror.encodeTcp stats.mirror))
      (callsIf v.extendedStats (encodeRates stats keys ++ flow.encodeTcp stats)) :=
    (rates.append (.refl _)).callsIf _
  exact ((bytes.append packets).append (.refl (encodeTotals stats))).append extended

end

/-- The whole sequence of calls. -/
theorem encodeCalls_mirror {flow : EncodedFlow} (known : flow.lowerMap ≠ .unknown)
    (started : flow.origin ≠ .unknown)
    (clear : flow.privateLower = false ∧ flow.privateUpper = false)
    (plain : flow.tunnelType = .none) (stats : EncodedStats) (encodeIncludes : UInt8) :
    SameEffect v (flow.mirror.encodeCalls v stats.mirror encodeIncludes)
      (flow.encodeCalls v stats encodeIncludes) := by
  have apart := apart_endKeys flow.lowerMap
  have keys : endKeys flow.mirror.lowerMap = swap (endKeys flow.lowerMap) := endKeys_mirror known
  have plain' : flow.mirror.tunnelType = .none := plain
  have tunnels : flow.mirror.encodeTunnels v (swap (endKeys flow.lowerMap)) =
      flow.encodeTunnels v (endKeys flow.lowerMap) := by
    unfold encodeTunnels
    rw [plain, plain']
  have metadata := (encodeMetadata_mirror (v := v) started clear apart).callsIf
    (encodeIncludes &&& 0x01 != 0)
  have counters := (encodeStats_mirror (v := v) flow stats apart).callsIf
    (encodeIncludes &&& 0x04 != 0)
  unfold encodeCalls
  simp only [keys, tunnels]
  exact (((SameEffect.refl flow.encodeDigest).append metadata).append (.refl _)).append counters

/-! ## Every assignment is taken -/

/-- The members that have members of their own. -/
def nestedKeys : List String :=
  ["category", "http", "dhcp", "ssh", "ssl", "bt", "ssdp", "mdns", "risks", "gtp", "tcp"]

/-- A call assigns to a member of a nested object, or to a member that is none. -/
def Fits (keys : List String) : Prop :=
  match keys with
  | [key] => key ∉ nestedKeys
  | [outer, _] => outer ∈ nestedKeys
  | _ => True

instance : DecidablePred Fits
  | [] => .isTrue trivial
  | [key] => inferInstanceAs (Decidable (key ∉ nestedKeys))
  | [outer, _] => inferInstanceAs (Decidable (outer ∈ nestedKeys))
  | _ :: _ :: _ :: _ => .isTrue trivial

def AllFit (calls : List SerializeCall) : Prop := ∀ call ∈ calls, Fits call.1

/-- A document in which the nested members are objects, as far as there are any. -/
def Nested (j : Json) : Prop :=
  ∃ entries, j.members = some entries ∧ ∀ outer ∈ nestedKeys,
    (((Json.object entries).find outer.toList).getD .null).members.isSome = true

theorem nested_null : Nested .null := ⟨[], rfl, fun _ _ => rfl⟩

theorem find_put (key key' : List Char) (value : Json) (entries : List (List Char × Json)) :
    (Json.object (OrderedMap.put key value entries)).find key' =
      if key' = key then some value else (Json.object entries).find key' := by
  unfold Json.find
  convert OrderedMap.find_put entries

/-- A call that fits is carried out. -/
theorem nested_serialize {call : SerializeCall} {j : Json} (fits : Fits call.1)
    (nested : Nested j) : ∃ j', serialize v call j = some j' ∧ Nested j' := by
  obtain ⟨entries, found, objects⟩ := nested
  obtain ⟨keys, value⟩ := call
  unfold serialize
  cases value.toJson v with
  | none => exact ⟨j, rfl, entries, found, objects⟩
  | some value =>
    match keys, fits with
    | [], _ => exact ⟨j, rfl, entries, found, objects⟩
    | [key], fits =>
      refine ⟨.object (OrderedMap.put key.toList value entries), by simp [Json.assign, found],
        _, rfl, fun outer inside => ?_⟩
      have other : outer.toList ≠ key.toList := by
        intro same
        exact fits (String.toList_injective same ▸ inside)
      rw [find_put, if_neg other]
      exact objects outer inside
    | [outer, inner], fits =>
      obtain ⟨members, has⟩ := Option.isSome_iff_exists.mp (objects outer fits)
      have done : j.assignIn outer.toList inner.toList value = some (.object (OrderedMap.put
          outer.toList (.object (OrderedMap.put inner.toList value members)) entries)) := by
        simp only [Json.assignIn, found, Option.bind_some, Json.assign, has, Option.map_some]
      refine ⟨_, done, _, rfl, fun outer' inside => ?_⟩
      rw [find_put]
      split
      · rfl
      · exact objects outer' inside
    | _ :: _ :: _ :: _, _ => exact ⟨j, rfl, entries, found, objects⟩

theorem nested_serializeAll {calls : List SerializeCall} {j : Json} (fits : AllFit calls)
    (nested : Nested j) : ∃ j', serializeAll v calls j = some j' ∧ Nested j' := by
  induction calls generalizing j with
  | nil => exact ⟨j, rfl, nested⟩
  | cons call calls ih =>
    obtain ⟨next, taken, nested'⟩ := nested_serialize (v := v) (fits call List.mem_cons_self) nested
    obtain ⟨last, rest, done⟩ := ih (fun c later => fits c (List.mem_cons_of_mem _ later)) nested'
    refine ⟨last, ?_, done⟩
    simpa [serializeAll, taken] using rest

theorem allFit_append {calls calls' : List SerializeCall} :
    AllFit (calls ++ calls') ↔ AllFit calls ∧ AllFit calls' := List.forall_mem_append

theorem allFit_callsIf {condition : Bool} {calls : List SerializeCall} (fits : AllFit calls) :
    AllFit (callsIf condition calls) := by
  cases condition with
  | true => exact fits
  | false => exact fun _ none => absurd none List.not_mem_nil

/-- Whether calls fit is decided by their keys, whatever the values are. -/
theorem allFit_of_all {calls : List SerializeCall}
    (fits : (calls.all fun call => decide (Fits call.1)) = true) : AllFit calls :=
  fun call inside => of_decide_eq_true (List.all_eq_true.mp fits call inside)

section
variable {flow : EncodedFlow} {stats : EncodedStats}

theorem allFit_ends (flow : EncodedFlow) (m : LowerMap) : AllFit (flow.encodeMacs v (endKeys m) ++
    flow.encodeIps v (endKeys m) ++ flow.encodePorts (endKeys m)) := by
  cases m with
  | unknown => exact allFit_of_all rfl
  | local_ => exact allFit_of_all rfl
  | other => exact allFit_of_all rfl

theorem allFit_encodeKey : AllFit (flow.encodeKey v) := by
  unfold encodeKey
  simp only [allFit_append]
  exact ⟨⟨allFit_of_all rfl, allFit_callsIf (allFit_of_all rfl)⟩, allFit_of_all rfl⟩

theorem allFit_encodeOrigin (keys : EndKeys) : AllFit (flow.encodeOrigin keys) := by
  unfold encodeOrigin
  cases flow.origin with
  | unknown => exact allFit_of_all rfl
  | lower => exact allFit_of_all rfl
  | upper => exact allFit_of_all rfl

theorem allFit_encodeDetection : AllFit flow.encodeDetection := by
  unfold encodeDetection
  simp only [allFit_append]
  exact ⟨⟨allFit_of_all rfl, allFit_callsIf (allFit_of_all rfl)⟩,
    allFit_callsIf (allFit_of_all rfl)⟩

theorem allFit_encodeSsl : AllFit (flow.encodeSsl v) := by
  apply allFit_callsIf
  simp only [allFit_append]
  refine ⟨⟨⟨⟨⟨⟨⟨⟨⟨allFit_of_all rfl, ?_⟩, ?_⟩, ?_⟩, ?_⟩, ?_⟩, ?_⟩, ?_⟩, ?_⟩, ?_⟩
  all_goals exact allFit_callsIf (allFit_of_all rfl)

theorem allFit_encodeMisc : AllFit (flow.encodeMisc v) := by
  unfold encodeMisc
  simp only [allFit_append]
  refine ⟨⟨?_, ?_⟩, ?_⟩
  all_goals exact allFit_callsIf (allFit_of_all rfl)

theorem allFit_encodeMetadata (m : LowerMap) : AllFit (flow.encodeMetadata v (endKeys m)) := by
  obtain ⟨⟨macs, ips⟩, ports⟩ : (_ ∧ _) ∧ _ := by
    simpa only [allFit_append] using allFit_ends (v := v) flow m
  have pair {c c' : Bool} {x x' : SerializeCall} (fits : AllFit [x]) (fits' : AllFit [x']) :
      AllFit (callsIf c [x] ++ callsIf c' [x']) :=
    allFit_append.mpr ⟨allFit_callsIf fits, allFit_callsIf fits'⟩
  unfold encodeMetadata
  simp only [allFit_append]
  exact ⟨⟨⟨⟨⟨⟨⟨⟨⟨⟨⟨allFit_encodeKey, allFit_encodeOrigin _⟩, macs⟩, ips⟩, ports⟩,
    allFit_encodeDetection⟩, pair (allFit_of_all rfl) (allFit_of_all rfl)⟩,
    pair (allFit_of_all rfl) (allFit_of_all rfl)⟩, pair (allFit_of_all rfl) (allFit_of_all rfl)⟩,
    allFit_encodeSsl⟩, allFit_encodeMisc⟩, allFit_of_all rfl⟩

theorem allFit_encodeTunnels (keys : EndKeys) : AllFit (flow.encodeTunnels v keys) := by
  unfold encodeTunnels
  cases flow.tunnelType with
  | none => exact allFit_of_all rfl
  | gtp => exact allFit_of_all rfl

theorem allFit_encodeStats (m : LowerMap) : AllFit (flow.encodeStats v stats (endKeys m)) := by
  have bytes : AllFit (encodeBytes stats (endKeys m)) := by
    cases m <;> exact allFit_of_all rfl
  have packets : AllFit (encodePackets stats (endKeys m)) := by
    cases m <;> exact allFit_of_all rfl
  have rates : AllFit (encodeRates stats (endKeys m)) := by
    cases m <;> exact allFit_of_all rfl
  have tcp : AllFit (flow.encodeTcp stats) := allFit_callsIf (allFit_of_all rfl)
  unfold encodeStats
  simp only [allFit_append]
  exact ⟨⟨⟨bytes, packets⟩, allFit_of_all rfl⟩,
    allFit_callsIf (allFit_append.mpr ⟨rates, tcp⟩)⟩

theorem allFit_encodeCalls (flow : EncodedFlow) (stats : EncodedStats) (encodeIncludes : UInt8) :
    AllFit (flow.encodeCalls v stats encodeIncludes) := by
  unfold encodeCalls
  simp only [allFit_append]
  exact ⟨⟨⟨allFit_of_all rfl, allFit_callsIf (allFit_encodeMetadata _)⟩,
    allFit_callsIf (allFit_encodeTunnels _)⟩, allFit_callsIf (allFit_encodeStats _)⟩

/-- `Encode` into an empty document never throws. -/
theorem encode_null (encodeIncludes : UInt8) :
    ∃ document, flow.encode v stats encodeIncludes .null = some document := by
  obtain ⟨document, done, _⟩ := nested_serializeAll (v := v)
    (allFit_encodeCalls flow stats encodeIncludes) nested_null
  exact ⟨document, done⟩

end

/-- **The document of a flow and of its mirror image is the same**, whichever sections are
asked for, and an empty document takes all of them. -/
theorem encode_mirror (v : EncodeServices) (flow : EncodedFlow) (stats : EncodedStats)
    (encodeIncludes : UInt8) (known : flow.lowerMap ≠ .unknown) (started : flow.origin ≠ .unknown)
    (clear : flow.privateLower = false ∧ flow.privateUpper = false)
    (plain : flow.tunnelType = .none) :
    (∀ output, flow.mirror.encode v stats.mirror encodeIncludes output =
        flow.encode v stats encodeIncludes output) ∧
      ∃ document, flow.encode v stats encodeIncludes .null = some document :=
  ⟨encodeCalls_mirror known started clear plain stats encodeIncludes, encode_null encodeIncludes⟩

/-- `inet_ntop` for IPv4, in a build with statistics and without the connection tracker. -/
def statsBuild : EncodeServices where
  ntop := ⟨fun bytes => some (['.'].intercalate (bytes.map fun b => Nat.toDigits 10 b.toNat)),
    fun _ => none⟩
  pointerByte _ _ := 0
  pointee _ := []
  realNumber bits := .float bits.toNat
  extendedStats := true
  conntrackMdata := false

/-- A connection that 10.0.0.1 opened to 192.0.2.7. -/
def opened : EncodedFlow where
  ipVersion := 4
  ipProtocol := 6
  lowerMap := .local_
  origin := .lower
  lowerAddr := (({} : Addr).createIn [10, 0, 0, 1]).setPort 0x901f
  upperAddr := (({} : Addr).createIn [192, 0, 2, 7]).setPort 0xbb01

theorem encode_mirror_opened : ∃ document, opened.encode statsBuild { lowerBytes := 40 } 0x07 .null =
      some document ∧
    opened.mirror.encode statsBuild (EncodedStats.mirror { lowerBytes := 40 }) 0x07 .null =
      some document := by
  obtain ⟨same, document, written⟩ := encode_mirror statsBuild opened { lowerBytes := 40 } 0x07
    (by decide) (by decide) ⟨rfl, rfl⟩ rfl
  exact ⟨document, written, (same .null).trans written⟩

end MirrorDocument

end NetifyAgent
