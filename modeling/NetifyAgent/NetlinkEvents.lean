import NetifyAgent.Netlink

/-! What netlink messages say, and that `ProcessEvent` does that: of datagrams whose
messages and attributes are padded nothing outside is read, and the tables are changed
by one message after the other, up to an error. -/
namespace NetifyAgent.NetlinkEvents
open Records InterfaceAddresses Netlink

/-! ## Messages -/

/-- An attribute: `rta_type` and `RTA_DATA`. -/
abbrev Attribute := Nat × List UInt8

/-- `rta_len`. -/
def attrSize (a : Attribute) : Nat := 4 + a.2.length

/-- A message of `RTM_NEWROUTE` or `RTM_DELROUTE`. -/
structure RouteMessage where
  rtmFamily : Nat
  rtmDstLen : Nat
  rtmType : Nat
  attributes : List Attribute
  deriving DecidableEq, Repr

/-- A message of `RTM_NEWADDR` or `RTM_DELADDR`. -/
structure IfaddrMessage where
  ifaFamily : Nat
  ifaIndex : Nat
  attributes : List Attribute
  deriving DecidableEq, Repr

inductive Message where
  | route (add : Bool) (message : RouteMessage)
  | address (add : Bool) (message : IfaddrMessage)
  | error (code : Nat)
  | overrun
  | other (code : Nat)
  deriving DecidableEq, Repr

/-- An address of a family that is known has its length. -/
def Sized (family : Nat) (data : List UInt8) : Prop :=
  familyOf family = .unspec ∨ data.length = addrSize (familyOf family) 0

section
variable (m : List UInt8)

/-- The attribute that a memory holds at a position. -/
structure AttrAt (pos : Nat) (a : Attribute) : Prop where
  length : numberAt m pos 2 = some (attrSize a)
  code : numberAt m (pos + 2) 2 = some a.1
  data : bytesAt m (pos + 4) a.2.length = some a.2

/-- The route message that a memory holds at a position. -/
structure RouteAt (pos : Nat) (add : Bool) (r : RouteMessage) (nlmsgLen : Nat) : Prop where
  code : numberAt m (pos + 4) 2 = some (if add then 24 else 25)
  length : nlmsgLen = 28 + total attrSize r.attributes
  family : numberAt m (pos + 16) 1 = some r.rtmFamily
  dstLen : numberAt m (pos + 17) 1 = some r.rtmDstLen
  type : numberAt m (pos + 23) 1 = some r.rtmType
  laid : Laid (fun pos a => AttrAt m pos a ∧ (a.1 = 1 → Sized r.rtmFamily a.2) ∧
    (a.1 = 4 → a.2.length = 4)) attrSize (pos + 28) r.attributes

/-- The address message that a memory holds at a position. -/
structure IfaddrAt (pos : Nat) (add : Bool) (r : IfaddrMessage) (nlmsgLen : Nat) : Prop where
  code : numberAt m (pos + 4) 2 = some (if add then 20 else 21)
  length : nlmsgLen = 24 + total attrSize r.attributes
  family : numberAt m (pos + 16) 1 = some r.ifaFamily
  index : numberAt m (pos + 20) 4 = some r.ifaIndex
  laid : Laid (fun pos a => AttrAt m pos a ∧
    (AddrMessage.carries ⟨rtaTypeOf a.1, a.2⟩ → Sized r.ifaFamily a.2)) attrSize (pos + 24)
      r.attributes

/-- The message that a memory holds at a position, with its `nlmsg_len`. -/
structure MessageAt (pos : Nat) (r : Message × Nat) : Prop where
  length : numberAt m pos 4 = some r.2
  header : 16 ≤ r.2
  body : match r.1 with
    | .route add message => RouteAt m pos add message r.2
    | .address add message => IfaddrAt m pos add message r.2
    | .error code => numberAt m (pos + 4) 2 = some 2 ∧ numberAt m (pos + 16) 4 = some code
    | .overrun => numberAt m (pos + 4) 2 = some 4
    | .other code => numberAt m (pos + 4) 2 = some code ∧ code ∉ [2, 4, 20, 21, 24, 25]

end

/-! ## What they say -/

variable (host : NetlinkHost)

/-- The destination and the interface of a route. -/
def RouteMessage.read (r : RouteMessage) (read : Addr × List Char) (a : Attribute) :
    Addr × List Char :=
  if a.1 = 1 then (createAddr (familyOf r.rtmFamily) read.1 a.2 r.rtmDstLen, read.2)
  else if a.1 = 4 then
    let ifname := host.ifIndexToName (Nat.ofDigits 256 (a.2.map UInt8.toNat))
    (read.1, if ifname = [] then read.2 else ifname)
  else read

/-- A unicast route adds its destination to the networks of its interface, or removes it. -/
def RouteMessage.apply (r : RouteMessage) (types : NdAddrType) (add : Bool) : NdAddrType × Bool :=
  if r.rtmType ≠ 1 then (types, false)
  else
    let read := r.attributes.foldl (r.read host) ({}, [])
    change host types add .atLocal read.1 read.2

/-- The message as `AddRemoveAddress` reads it. -/
def IfaddrMessage.toAddrMessage (r : IfaddrMessage) : AddrMessage where
  ifaFamily := familyOf r.ifaFamily
  ifname := host.ifIndexToName r.ifaIndex
  attributes := r.attributes.map fun a => ⟨rtaTypeOf a.1, a.2⟩

def Message.apply (s : Changes) : Message → Except NdAddrType Changes
  | .route add r => .ok (s.and (r.apply host s.1 add))
  | .address add r =>
    .ok (s.and (InterfaceAddresses.addRemoveAddress s.1 (host.order s.1) (r.toAddrMessage host)
      add))
  | .error code => if code ≠ 0 then .error s.1 else .ok s
  | .overrun => .error s.1
  | .other _ => .ok s

/-- The tables and the answer after some messages. -/
def answer (s : Changes) (messages : List Message) : NdAddrType × Bool :=
  match messages.foldlM (Message.apply host) s with
  | .ok s => s
  | .error types => (types, false)

/-! ## Reading attributes -/

section
variable {host : NetlinkHost} {m more : List UInt8} {pos : Nat}

/-- What is not read does not matter. -/
theorem createAddr_take (family : Family) (dst : Addr) {data : List UInt8} (prefixLen : Nat)
    (sized : data.length = addrSize family 0) :
    createAddr family dst (data.take (addrSize family prefixLen)) prefixLen =
      createAddr family dst data prefixLen := by
  cases family with
  | inet =>
    by_cases long : 32 < prefixLen
    · simp only [createAddr, if_pos long]
    · have whole : data.length = 4 := sized
      rw [addrSize, if_neg long, List.take_of_length_le (Nat.le_of_eq whole)]
  | inet6 =>
    by_cases long : 128 < prefixLen
    · simp only [createAddr, if_pos long]
    · have whole : data.length = 16 := sized
      rw [addrSize, if_neg long, List.take_of_length_le (Nat.le_of_eq whole)]
  | _ => rfl

theorem addrSize_le (family : Family) (prefixLen : Nat) :
    addrSize family prefixLen ≤ addrSize family 0 := by
  cases family with
  | inet =>
    show (if 32 < prefixLen then 0 else 4) ≤ 4
    split_ifs <;> omega
  | inet6 =>
    show (if 128 < prefixLen then 0 else 16) ≤ 16
    split_ifs <;> omega
  | _ => exact Nat.le_refl _

theorem copyAddress_sized {family src prefixLen : Nat} {dst : Addr} {data : List UInt8}
    (here : bytesAt m src data.length = some data) (sized : Sized family data) :
    Netlink.copyAddress m family dst src prefixLen =
      some (createAddr (familyOf family) dst data prefixLen) := by
  rcases sized with unknown | whole
  · have none : bytesAt m src 0 = some (data.take 0) := bytesAt_take here (Nat.zero_le _)
    have nothing : addrSize .unspec prefixLen = 0 := rfl
    rw [Netlink.copyAddress, unknown, nothing, none, Option.map_some]
    rfl
  · have fits := addrSize_le (familyOf family) prefixLen
    rw [Netlink.copyAddress, bytesAt_take here (whole ▸ fits), Option.map_some,
      createAddr_take _ _ _ whole]

/-- With the default prefix. -/
theorem createAddr_zero (family : Nat) (dst : Addr) (data : List UInt8) :
    createAddr (familyOf family) dst data 0 =
      InterfaceAddresses.copyAddress (familyOf family) dst data := by
  cases known : familyOf family <;> rfl

theorem readRoute_eq {rtm : Nat} {r : RouteMessage} (family : numberAt m rtm 1 = some r.rtmFamily)
    (dstLen : numberAt m (rtm + 1) 1 = some r.rtmDstLen) {a : Attribute} (attr : AttrAt m pos a)
    (sized : a.1 = 1 → Sized r.rtmFamily a.2) (word : a.1 = 4 → a.2.length = 4)
    (read : Addr × List Char) :
    readRoute host m rtm read pos = some (.ok (r.read host read a)) := by
  simp only [readRoute, attr.code, Option.bind_eq_bind, Option.bind_some]
  by_cases dst : a.1 = 1
  · simp only [if_pos dst, family, dstLen, Option.bind_some,
      copyAddress_sized attr.data (sized dst), RouteMessage.read]
    rfl
  · by_cases oif : a.1 = 4
    · have number : numberAt m (pos + 4) 4 = some (Nat.ofDigits 256 (a.2.map UInt8.toNat)) := by
        have data := attr.data
        rw [word oif] at data
        rw [numberAt, data, Option.map_some]
      simp only [if_neg dst, if_pos oif, number, Option.bind_some, RouteMessage.read]
      rfl
    · simp only [if_neg dst, if_neg oif, RouteMessage.read]
      rfl

theorem readAddr_eq {addrm : Nat} {r : IfaddrMessage}
    (family : numberAt m addrm 1 = some r.ifaFamily)
    {a : Attribute} (attr : AttrAt m pos a)
    (sized : AddrMessage.carries ⟨rtaTypeOf a.1, a.2⟩ → Sized r.ifaFamily a.2)
    (read : Addr × AddrType) :
    readAddr m addrm read pos =
      some (.ok (readAttribute (familyOf r.ifaFamily) read ⟨rtaTypeOf a.1, a.2⟩)) := by
  simp only [readAddr, attr.code, Option.bind_eq_bind, Option.bind_some, readAttribute]
  cases code : rtaTypeOf a.1 with
  | ifaAddress =>
    rw [code] at sized
    simp only [family, Option.bind_some, copyAddress_sized attr.data (sized rfl), createAddr_zero]
    rfl
  | ifaLocal =>
    rw [code] at sized
    simp only [family, Option.bind_some, copyAddress_sized attr.data (sized rfl), createAddr_zero]
    rfl
  | ifaBroadcast =>
    rw [code] at sized
    simp only [family, Option.bind_some, copyAddress_sized attr.data (sized rfl), createAddr_zero]
    rfl
  | other code => rfl

/-- The loop over padded attributes. -/
theorem attributes_laid {σ : Type} (read : σ → Nat → Option (Except Empty σ))
    (next : σ → Attribute → σ) {holds : Nat → Attribute → Prop}
    (attr : ∀ pos a, holds pos a → AttrAt m pos a)
    (reads : ∀ s pos a, holds pos a → read s pos = some (.ok (next s a))) {as : List Attribute}
    (laid : Laid holds attrSize pos as) (small : total attrSize as < 2 ^ 32) (s : σ) :
    attributes m read pos (total attrSize as : Nat) s = some (as.foldl next s) := by
  have enough : as.length < m.length + 1 := by
    have inside (pos : Nat) (a : Attribute) (here : holds pos a) : pos < m.length := by
      have fits := numberAt_inside (attr pos a here).length
      omega
    rcases laid.length_le inside (fun pos a _ => by unfold attrSize; omega) with rfl | fits
    · exact Nat.zero_lt_succ _
    · omega
  have walked : walk (fun rta => numberAt m rta 2) 4 toSize read (m.length + 1) pos
      (total attrSize as : Nat) s = some (as.foldlM (fun s a => .ok (next s a)) s) :=
    walk_laid (by decide) (fun pos a here => (attr pos a here).length)
      (fun pos a _ => by unfold attrSize; omega) reads
    (fun n fits => by unfold toSize; omega) laid enough s
  have all : as.foldlM (fun s a => (Except.ok (next s a) : Except Empty σ)) s =
      .ok (as.foldl next s) := List.foldlM_pure
  simp only [attributes, walked, all, Option.bind_some]

/-! ## Reading messages -/

theorem addRemoveNetwork_eq (host : NetlinkHost) {add : Bool} {r : RouteMessage} {nlmsgLen : Nat}
    (length : numberAt m pos 4 = some nlmsgLen) (here : RouteAt m pos add r nlmsgLen)
    (types : NdAddrType) :
    addRemoveNetwork host m types pos add = some (r.apply host types add) := by
  have small : nlmsgLen < 2 ^ 32 := numberAt_lt length
  have size := here.length
  have offset : toSize ((nlmsgLen : Int) - 28) = (total attrSize r.attributes : Nat) := by
    unfold toSize
    omega
  have type : numberAt m (pos + 16 + 7) 1 = some r.rtmType := here.type
  simp only [addRemoveNetwork, length, type, Option.bind_eq_bind, Option.bind_some, offset,
    RouteMessage.apply]
  by_cases unicast : r.rtmType = 1
  · have read := attributes_laid (readRoute host m (pos + 16)) (r.read host)
      (fun pos a here => here.1)
      (fun s pos a attr => readRoute_eq here.family here.dstLen attr.1 attr.2.1 attr.2.2 s)
      here.laid (by omega) ({}, [])
    simp only [unicast, ne_eq, not_true_eq_false, if_false, read, Option.bind_some]
    rfl
  · simp only [ne_eq, unicast, not_false_eq_true, if_true]
    rfl

theorem addRemoveAddress_eq (host : NetlinkHost) {add : Bool} {r : IfaddrMessage} {nlmsgLen : Nat}
    (length : numberAt m pos 4 = some nlmsgLen) (here : IfaddrAt m pos add r nlmsgLen)
    (types : NdAddrType) :
    Netlink.addRemoveAddress host m types pos add =
      some (InterfaceAddresses.addRemoveAddress types (host.order types)
        (r.toAddrMessage host) add) := by
  have small : nlmsgLen < 2 ^ 32 := numberAt_lt length
  have size := here.length
  have offset : toSize ((nlmsgLen : Int) - 24) = (total attrSize r.attributes : Nat) := by
    unfold toSize
    omega
  have index : numberAt m (pos + 16 + 4) 4 = some r.ifaIndex := here.index
  have read := attributes_laid (readAddr m (pos + 16))
    (fun read a => readAttribute (familyOf r.ifaFamily) read ⟨rtaTypeOf a.1, a.2⟩)
    (fun pos a here => here.1) (fun s pos a attr => readAddr_eq here.family attr.1 attr.2 s)
    here.laid (by omega) ({}, .atLocal)
  have folded : r.attributes.foldl
      (fun read a => readAttribute (familyOf r.ifaFamily) read ⟨rtaTypeOf a.1, a.2⟩)
        ({}, .atLocal) = readMessage (r.toAddrMessage host) := by
    rw [readMessage, IfaddrMessage.toAddrMessage, List.foldl_map]
  simp only [Netlink.addRemoveAddress, length, index, Option.bind_eq_bind, Option.bind_some, offset,
    read, folded]
  rfl

theorem message_eq {r : Message × Nat} (here : MessageAt m pos r) (s : Changes) :
    message host m s pos = some (r.1.apply host s) := by
  obtain ⟨said, nlmsgLen⟩ := r
  obtain ⟨length, -, body⟩ := here
  cases said with
  | route add r =>
    have changed := addRemoveNetwork_eq host length body s.1
    cases add <;> simp only [message, body.code, Option.bind_eq_bind, Option.bind_some, changed] <;>
      rfl
  | address add r =>
    have changed := addRemoveAddress_eq host length body s.1
    cases add <;> simp only [message, body.code, Option.bind_eq_bind, Option.bind_some, changed] <;>
      rfl
  | error code =>
    simp only [message, body.1, body.2, Option.bind_eq_bind, Option.bind_some, Message.apply]
    by_cases none : code = 0
    · simp [none]
    · simp [none]
  | overrun =>
    have code : numberAt m (pos + 4) 2 = some 4 := body
    simp only [message, code, Option.bind_eq_bind, Option.bind_some]
    rfl
  | other code =>
    obtain ⟨read, others⟩ := body
    simp only [List.mem_cons, List.not_mem_nil, or_false, not_or] at others
    obtain ⟨no2, no4, no20, no21, no24, no25⟩ := others
    simp only [message, read, Option.bind_eq_bind, Option.bind_some, if_neg no2, if_neg no4,
      if_neg no20, if_neg no21, if_neg no24, if_neg no25]
    rfl

/-! ## What is behind a datagram -/

theorem AttrAt.append {a : Attribute} (here : AttrAt m pos a) : AttrAt (m ++ more) pos a :=
  ⟨numberAt_append here.length, numberAt_append here.code, bytesAt_append here.data⟩

theorem MessageAt.append (more : List UInt8) {r : Message × Nat} (here : MessageAt m pos r) :
    MessageAt (m ++ more) pos r := by
  obtain ⟨said, nlmsgLen⟩ := r
  refine ⟨numberAt_append here.length, here.header, ?_⟩
  have body := here.body
  cases said with
  | route add r =>
    exact ⟨numberAt_append body.code, body.length, numberAt_append body.family,
      numberAt_append body.dstLen, numberAt_append body.type,
      body.laid.mono fun pos a attr => ⟨attr.1.append, attr.2⟩⟩
  | address add r =>
    exact ⟨numberAt_append body.code, body.length, numberAt_append body.family,
      numberAt_append body.index, body.laid.mono fun pos a attr => ⟨attr.1.append, attr.2⟩⟩
  | error code => exact ⟨numberAt_append body.1, numberAt_append body.2⟩
  | overrun => exact numberAt_append body
  | other code => exact ⟨numberAt_append body.1, body.2⟩

/-- A datagram that holds messages one behind the other. -/
structure Holds (datagram : List UInt8) (messages : List (Message × Nat)) : Prop where
  laid : Laid (MessageAt datagram) Prod.snd 0 messages
  size : datagram.length = total Prod.snd messages

/-- The loop over the messages of a datagram, whatever the buffer holds behind it. -/
theorem walk_datagram (host : NetlinkHost) (more : List UInt8) {datagram : List UInt8}
    {messages : List (Message × Nat)} (holds : Holds datagram messages) (s : Changes) :
    walk (fun nlh => numberAt (datagram ++ more) nlh 4) 16 id (message host (datagram ++ more))
      ((datagram ++ more).length + 1) 0 datagram.length s =
      some ((messages.map Prod.fst).foldlM (Message.apply host) s) := by
  have laid := holds.laid.mono fun pos r here => here.append more
  have enough : messages.length < (datagram ++ more).length + 1 := by
    have inside (pos : Nat) (r : Message × Nat) (here : MessageAt (datagram ++ more) pos r) :
        pos < (datagram ++ more).length := by
      have fits := numberAt_inside here.length
      omega
    have positive (pos : Nat) (r : Message × Nat) (here : MessageAt (datagram ++ more) pos r) :
        0 < r.2 := by
      have := here.header
      omega
    rcases laid.length_le inside positive with rfl | fits
    · exact Nat.zero_lt_succ _
    · omega
  rw [holds.size, List.foldlM_map]
  have length (pos : Nat) (r : Message × Nat) (here : MessageAt (datagram ++ more) pos r) :
      numberAt (datagram ++ more) pos 4 = some r.2 := here.length
  exact walk_laid (by decide) length (fun pos r here => here.header)
    (fun s pos r here => message_eq here s) (fun n _ => rfl) laid enough s

theorem answer_append (s : Changes) (first second : List Message) :
    answer host s (first ++ second) =
      match first.foldlM (Message.apply host) s with
      | .ok s => answer host s second
      | .error types => (types, false) := by
  rw [answer, List.foldlM_append]
  cases first.foldlM (Message.apply host) s <;> rfl

/-- **Events**: of datagrams that hold messages nothing outside is read, whatever the
buffer held before, and the tables and the answer are those of the messages in their
order. -/
theorem processEvent_eq {datagrams : List (List UInt8 × List (Message × Nat))}
    (holds : ∀ d ∈ datagrams, Holds d.1 d.2) (buffer : List UInt8) (s : Changes) :
    processEvent host buffer (datagrams.map Prod.fst) s =
      some (answer host s (datagrams.flatMap fun d => d.2.map Prod.fst)) := by
  induction datagrams generalizing buffer s with
  | nil => rfl
  | cons d datagrams ih =>
    have walked := walk_datagram host (buffer.drop d.1.length) (holds d List.mem_cons_self) s
    rw [List.map_cons, List.flatMap_cons, processEvent, walked, answer_append, Option.bind_some]
    cases (d.2.map Prod.fst).foldlM (Message.apply host) s with
    | error types => rfl
    | ok s => exact ih (fun d member => holds d (List.mem_cons_of_mem _ member)) _ s

/-- An address of an interface, with its label. -/
def newAddr : List UInt8 :=
  [44, 0, 0, 0, 20, 0, 0, 0, 0, 0, 0, 0, 0, 0, 0, 0, 2, 24, 0, 0, 3, 0, 0, 0, 8, 0, 1, 0,
    192, 168, 0, 1, 9, 0, 3, 0, 101, 116, 104, 48, 0, 0, 0, 0]

def newAddrMessage : IfaddrMessage where
  ifaFamily := 2
  ifaIndex := 3
  attributes := [(1, [192, 168, 0, 1]), (3, [101, 116, 104, 48, 0])]

/-- `NLMSG_DONE`. -/
def done : List UInt8 := [16, 0, 0, 0, 3, 0, 2, 0, 0, 0, 0, 0, 0, 0, 0, 0]

def oneName : NetlinkHost := ⟨fun _ => ['e', 't', 'h', '0'], fun _ => [['e', 't', 'h', '0']]⟩

theorem newAddr_holds : Holds newAddr [(.address true newAddrMessage, 44)] where
  laid := by
    refine ⟨⟨by decide, by decide, ⟨by decide, by decide, by decide, by decide, ?_, ?_, trivial⟩⟩,
      trivial⟩
    · exact ⟨⟨by decide, by decide, by decide⟩, fun _ => .inr (by decide)⟩
    · exact ⟨⟨by decide, by decide, by decide⟩, fun carried => by cases carried⟩
  size := by decide

theorem done_holds : Holds done [(.other 3, 16)] where
  laid := ⟨⟨by decide, by decide, by decide, by decide⟩, trivial⟩
  size := by decide

/-- The buffer still holds bytes of the first datagram behind the second. -/
theorem processEvent_newAddr :
    processEvent oneName [] [newAddr, done] ({}, false) =
      some (answer oneName ({}, false) [.address true newAddrMessage, .other 3]) :=
  @processEvent_eq oneName [(newAddr, [(.address true newAddrMessage, 44)]),
    (done, [(.other 3, 16)])] (by
      intro d member
      simp only [List.mem_cons, List.not_mem_nil, or_false] at member
      rcases member with rfl | rfl
      · exact newAddr_holds
      · exact done_holds) [] ({}, false)

/-! ## Messages without padding -/

/-- **The last attribute** of a message decides whether the loop over them stays in a
memory that ends with the message: `offset` is unsigned, and without padding it passes
zero. -/
theorem addRemoveAddress_isSome_iff {add : Bool} {r : IfaddrMessage} {last : Attribute}
    {types : NdAddrType} (length : numberAt m pos 4 =
      some (24 + (total attrSize r.attributes + attrSize last)))
    (family : numberAt m (pos + 16) 1 = some r.ifaFamily)
    (index : numberAt m (pos + 20) 4 = some r.ifaIndex)
    (laid : Laid (fun pos a => AttrAt m pos a ∧
      (AddrMessage.carries ⟨rtaTypeOf a.1, a.2⟩ → Sized r.ifaFamily a.2)) attrSize (pos + 24)
        (r.attributes ++ [last]))
    (ends : m.length = pos + 24 + (total attrSize r.attributes + attrSize last)) :
    (Netlink.addRemoveAddress host m types pos add).isSome ↔ attrSize last % 4 = 0 := by
  have small := numberAt_lt length
  have offset : toSize (((24 + (total attrSize r.attributes + attrSize last) : Nat) : Int) - 24) =
      (total attrSize r.attributes + attrSize last : Nat) := by
    unfold toSize
    omega
  have outside : numberAt m (pos + 24 + total attrSize (r.attributes ++ [last])) 2 = none := by
    have sum : total attrSize (r.attributes ++ [last]) =
        total attrSize r.attributes + align (attrSize last) := by
      simp [total]
    have fits := le_align (attrSize last)
    rw [numberAt, bytesAt_outside (by omega), Option.map_none]
  have enough : r.attributes.length + 1 < m.length + 1 := by
    have inside (pos : Nat) (a : Attribute) (here : AttrAt m pos a ∧
        (AddrMessage.carries ⟨rtaTypeOf a.1, a.2⟩ → Sized r.ifaFamily a.2)) : pos < m.length := by
      have fits := numberAt_inside here.1.length
      omega
    rcases laid.length_le inside (fun pos a _ => by unfold attrSize; omega) with none | fits
    · simp at none
    · rw [List.length_append, List.length_singleton] at fits
      omega
  have walked : (walk (fun rta => numberAt m rta 2) 4 toSize (readAddr m (pos + 16))
      (m.length + 1) (pos + 24) (total attrSize r.attributes + attrSize last : Nat)
      ({}, .atLocal)).isSome ↔ attrSize last % 4 = 0 :=
    walk_isSome_iff (by decide) (fun pos a here => here.1.length)
      (fun pos a _ => by unfold attrSize; omega)
    (fun s pos a here => readAddr_eq family here.1 here.2 s)
    (fun n fits => by unfold toSize; omega) (fun n low high => by unfold toSize; omega) laid enough
    outside ({}, .atLocal)
  rw [← walked]
  have index' : numberAt m (pos + 16 + 4) 4 = some r.ifaIndex := index
  simp only [Netlink.addRemoveAddress, length, index', Option.bind_eq_bind, Option.bind_some,
    offset, attributes]
  cases walk (fun rta => numberAt m rta 2) 4 toSize (readAddr m (pos + 16)) (m.length + 1)
    (pos + 24) (total attrSize r.attributes + attrSize last : Nat) ({}, .atLocal) with
  | none => rfl
  | some ended =>
    cases ended with
    | error none => cases none
    | ok read => rfl

/-- The address without the padding of its label. -/
def unpadded : List UInt8 :=
  [41, 0, 0, 0, 20, 0, 0, 0, 0, 0, 0, 0, 0, 0, 0, 0, 2, 24, 0, 0, 3, 0, 0, 0, 8, 0, 1, 0,
    192, 168, 0, 1, 9, 0, 3, 0, 101, 116, 104, 48, 0]

theorem addRemoveAddress_unpadded :
    ¬ (Netlink.addRemoveAddress oneName unpadded {} 0 true).isSome := by
  have stays := @addRemoveAddress_isSome_iff oneName unpadded 0 true
    ⟨2, 3, [(1, [192, 168, 0, 1])]⟩ (3, [101, 116, 104, 48, 0]) {} (by decide) (by decide)
    (by decide) (by
      refine ⟨⟨⟨by decide, by decide, by decide⟩, fun _ => .inr (by decide)⟩,
        ⟨⟨by decide, by decide, by decide⟩, fun carried => by cases carried⟩, trivial⟩) (by decide)
  rw [stays]
  decide

end

end NetifyAgent.NetlinkEvents
