import NetifyAgent.Conntrack
import NetifyAgent.DnsHintFile
import NetifyAgent.Sha1Digest

/-! Who computes digests: flows and tracked connections, which write one field after
the other, and `nd_sha1_file`, which writes what it reads of a file. -/
namespace NetifyAgent.Sha1
open SecureHash Bytes ConntrackThread

/-! ## Flows and connections -/

/-- What `ndFlow::Hash(device)` writes, buffer by buffer. -/
def flowBuffers (flow : Flow) (device : List UInt8) : List (List UInt8) :=
  [device, [UInt8.ofNat flow.ipVersion], [UInt8.ofNat flow.ipProtocol],
    leBytes16 flow.vlanId] ++
  (match flow.ipVersion with
    | 4 => [flow.lowerAddr.sinAddr, flow.upperAddr.sinAddr] ++
      if flow.lowerAddr.sinAddr = [0, 0, 0, 0] ∧ flow.upperAddr.sinAddr = [255, 255, 255, 255]
      then [flow.lowerMac.sllAddr] else []
    | 6 => [flow.lowerAddr.sin6Addr, flow.upperAddr.sin6Addr]
    | _ => []) ++
  [leBytes16 flow.lowerAddr.getPortRaw, leBytes16 flow.upperAddr.getPortRaw]

theorem flowBuffers_flatten (flow : Flow) (device : List UInt8) :
    (flowBuffers flow device).flatten = flow.hashStream device := by
  unfold flowBuffers Flow.hashStream Flow.hashAddrs
  split
  · rename_i version
    simp only [version]
    split <;> simp
  · rename_i version
    simp [version]
  · rename_i four six
    simp [four, six]

/-- What `ndConntrackFlow::Hash` writes, buffer by buffer. -/
def conntrackBuffers (f : ConntrackFlow) : List (List UInt8) :=
  let addrs := f.hashedAddrs
  let ports := f.replPort
  [leBytes16 f.l3Proto.toNat, [f.l4Proto]] ++
  if memcmp addrs.src addrs.dst < 0 then
    [addrs.src, addrs.dst, leBytes16 ports.src.toNat, leBytes16 ports.dst.toNat]
  else [addrs.dst, addrs.src, leBytes16 ports.dst.toNat, leBytes16 ports.src.toNat]

theorem conntrackBuffers_flatten (f : ConntrackFlow) :
    (conntrackBuffers f).flatten = f.hashStream := by
  unfold conntrackBuffers ConntrackFlow.hashStream
  simp only
  split <;> simp

/-- What `ndConntrackThread::UpdateFlow` writes, buffer by buffer. -/
def lookupBuffers (flow : Flow) : List (List UInt8) :=
  [leBytes16 (if flow.ipVersion = 4 then afInet else afInet6).toNat,
    [UInt8.ofNat flow.ipProtocol], flow.lowerAddr.getAddress, flow.upperAddr.getAddress,
    leBytes16 flow.lowerAddr.getPortRaw, leBytes16 flow.upperAddr.getPortRaw]

theorem lookupBuffers_flatten (flow : Flow) : (lookupBuffers flow).flatten = flowStream flow := by
  simp [lookupBuffers, flowStream]

/-- A digest depends on what is written only, not on where it is written from. -/
theorem digestOf_buffers (o : ByteOrder) (buffer : Buffer) {placed : List (Nat × List UInt8)}
    {buffers : List (List UInt8)} (same : placed.map Prod.snd = buffers) :
    digestOf o buffer placed = some (digest buffers.flatten) := by
  rw [digestOf_eq, same]

/-- The digest a flow is filed under, the digest of a tracked connection, and the one a
flow is looked up by among the connections, as their writes leave them. -/
theorem digests_written (o : ByteOrder) (buffer : Buffer) (placed : List (Nat × List UInt8)) :
    (∀ flow device, placed.map Prod.snd = flowBuffers flow device →
      digestOf o buffer placed = some (flow.hash digest device).digestLower) ∧
    (∀ f, placed.map Prod.snd = conntrackBuffers f →
      digestOf o buffer placed = some (f.hash digest).digest) ∧
    ∀ flow, placed.map Prod.snd = lookupBuffers flow →
      digestOf o buffer placed = some (digest (flowStream flow)) := by
  refine ⟨fun flow device same => ?_, fun f same => ?_, fun flow same => ?_⟩
  · rw [digestOf_buffers o buffer same, flowBuffers_flatten]
    rfl
  · rw [digestOf_buffers o buffer same, conntrackBuffers_flatten]
    rfl
  · rw [digestOf_buffers o buffer same, lookupBuffers_flatten]

/-! ## Files -/

/-- What a `read` gives: bytes, of which there are none at the end of the file, or an
error. -/
abbrev Read := Option (List UInt8)

/-- The loop of `nd_sha1_file`, which reads into one buffer again and again, with what
the reads give: its return value, and the digest it leaves. It is `none` while it
still has to read. -/
def fileLoop (o : ByteOrder) (address : Nat) : Context → List Read →
    Option (Int × Option (List UInt8))
  | _, [] => none
  | _, none :: _ => some (-1, none)
  | ctx, some bytes :: later =>
    if 0 < bytes.length then do
      let ctx ← write o ctx address bytes
      fileLoop o address ctx later
    else do
      let digest ← result o ctx
      some (0, some digest)

/-- `nd_sha1_file`. -/
def ndSha1File (o : ByteOrder) (buffer : Buffer) (address : Nat) (opened : Bool)
    (reads : List Read) : Option (Int × Option (List UInt8)) :=
  if opened then fileLoop o address (init buffer) reads else some (-1, none)

/-- After some reads the loop is where the written context takes it. -/
theorem fileLoop_append (o : ByteOrder) (address : Nat) {ctx : Context}
    {message : List UInt8} (written : Written ctx message) {chunks : List (List UInt8)}
    (some : ∀ c ∈ chunks, c ≠ []) (later : List Read) :
    ∃ ctx', fileLoop o address ctx (chunks.map Option.some ++ later) =
      fileLoop o address ctx' later ∧ Written ctx' (message ++ chunks.flatten) := by
  induction chunks generalizing ctx message with
  | nil => exact ⟨ctx, rfl, by simpa using written⟩
  | cons c rest ih =>
    obtain ⟨next, done, written⟩ := write_spec o address c written
    obtain ⟨ctx', same, written⟩ := ih written fun c here => some c (List.mem_cons_of_mem _ here)
    refine ⟨ctx', ?_, by simpa using written⟩
    rw [List.map_cons, List.cons_append, fileLoop,
      if_pos (List.length_pos_of_ne_nil (some c List.mem_cons_self)), done]
    exact same

/-- `nd_sha1_file` gives the secure hash of the whole file however many bytes each
`read` gives, gives up on the first `read` that fails without leaving a digest, and
goes on reading until one or the other. -/
theorem ndSha1File_spec (o : ByteOrder) (buffer : Buffer) (address : Nat)
    {chunks : List (List UInt8)} (some : ∀ c ∈ chunks, c ≠ []) (later : List Read) :
    ndSha1File o buffer address true (chunks.map Option.some ++ Option.some [] :: later) =
        Option.some (0, Option.some (digest chunks.flatten)) ∧
      ndSha1File o buffer address true (chunks.map Option.some ++ none :: later) =
        Option.some (-1, none) ∧
      ndSha1File o buffer address true (chunks.map Option.some) = none := by
  have loop (later : List Read) :=
    fileLoop_append o address (written_init buffer) some later
  refine ⟨?_, ?_, ?_⟩
  · obtain ⟨ctx, same, written⟩ := loop (Option.some [] :: later)
    simp only [ndSha1File, if_true, same, fileLoop, List.length_nil, Nat.lt_irrefl, if_false,
      result_spec o written, Option.bind_eq_bind, Option.bind_some, List.nil_append]
  · obtain ⟨ctx, same, -⟩ := loop (none :: later)
    simp only [ndSha1File, if_true, same, fileLoop]
  · obtain ⟨ctx, same, -⟩ := loop []
    rw [List.append_nil] at same
    simp only [ndSha1File, if_true, same, fileLoop]

/-- Three bytes that two reads give. -/
theorem ndSha1File_abc :
    let buffer : Buffer := ⟨List.replicate 128 0, List.length_replicate⟩
    ndSha1File .littleEndian buffer 0 true [some [0x61], some [0x62, 0x63], some []] =
      some (0, some [0xa9, 0x99, 0x3e, 0x36, 0x47, 0x06, 0x81, 0x6a, 0xba, 0x3e,
        0x25, 0x71, 0x78, 0x50, 0xc2, 0x6c, 0x9c, 0xd0, 0xd8, 0x9d]) := by
  have hash : digest [0x61, 0x62, 0x63] = [0xa9, 0x99, 0x3e, 0x36, 0x47, 0x06, 0x81, 0x6a, 0xba,
      0x3e, 0x25, 0x71, 0x78, 0x50, 0xc2, 0x6c, 0x9c, 0xd0, 0xd8, 0x9d] := by
    decide +kernel
  have read := (@ndSha1File_spec .littleEndian ⟨List.replicate 128 0, List.length_replicate⟩ 0
    [[0x61], [0x62, 0x63]] (by simp) []).1
  simpa [hash] using read

end NetifyAgent.Sha1
