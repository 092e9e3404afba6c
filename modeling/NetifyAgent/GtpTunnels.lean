import NetifyAgent.Frames
import NetifyAgent.IpWalk

/-! GTP-U tunnels. A header with any of its three flags set has four more bytes, and with
one of them a chain of extension headers behind these. The code adds a number of bytes for
each flag and knows no extension headers. -/
namespace NetifyAgent.GtpTunnels
open NetifyAgent.Bytes NetifyAgent.Dissection

/-! ## Headers -/

/-- `flags.ext_hdr`. -/
def extHdr (p : Packet) (hdr : Nat) : Nat := (p.data hdr).toNat / 4 % 2

/-- `flags.seq_num`. -/
def seqNum (p : Packet) (hdr : Nat) : Nat := (p.data hdr).toNat / 2 % 2

/-- `flags.npdu_num`. -/
def npduNum (p : Packet) (hdr : Nat) : Nat := (p.data hdr).toNat % 2

/-- A chain of extension headers, from the type that announces the first one to the end of
the last one. A header starts with its length in words and ends with the next type. -/
inductive Extensions (p : Packet) : UInt8 → Nat → Nat → Prop where
  | none {off : Nat} : Extensions p 0 off off
  | header {type : UInt8} {off stop : Nat} (announced : type ≠ 0) (sized : p.data off ≠ 0)
      (behind : Extensions p (p.data (off + 4 * (p.data off).toNat - 1))
        (off + 4 * (p.data off).toNat) stop) : Extensions p type off stop

/-- Where the packet inside a G-PDU starts. -/
inductive InnerStart (p : Packet) (hdr : Nat) : Nat → Prop where
  | plain (ext : extHdr p hdr = 0) (seq : seqNum p hdr = 0) (npdu : npduNum p hdr = 0) :
      InnerStart p hdr (hdr + 8)
  | optional (ext : extHdr p hdr = 0) (some : seqNum p hdr = 1 ∨ npduNum p hdr = 1) :
      InnerStart p hdr (hdr + 12)
  | extended {stop : Nat} (ext : extHdr p hdr = 1)
      (chain : Extensions p (p.data (hdr + 11)) (hdr + 12) stop) : InnerStart p hdr stop

/-- The IP header at an offset carries a GTPv1 G-PDU. -/
structure GPdu (W : ExtensionWalker) (p : Packet) (l2Len hdr : Nat) : Prop where
  accepted : Accepted W p l2Len
  tunnel : tunnelled p (segment W p l2Len)
  place : hdr = (segment W p l2Len).l4 + 8
  version : gtpVersion p hdr = 1
  type : (p.data (hdr + 1)).toNat = GTP_G_PDU

/-- The tunnels from an IP header on, each by its GTP header and the start of the packet
inside, which is captured at least with its fixed header. -/
inductive Tunnels (W : ExtensionWalker) (p : Packet) : Nat → List (Nat × Nat) → Prop where
  | last {l2Len : Nat} (other : ∀ hdr, ¬ GPdu W p l2Len hdr) : Tunnels W p l2Len []
  | tunnel {l2Len hdr start : Nat} {rest : List (Nat × Nat)} (pdu : GPdu W p l2Len hdr)
      (inside : InnerStart p hdr start) (captured : start + 20 ≤ p.cap)
      (behind : Tunnels W p start rest) : Tunnels W p l2Len ((hdr, start) :: rest)

/-! ## Re-entries -/

/-- `ProcessPacket` comes to `nd_process_ip` with `l2_len` and then again with some others. -/
inductive Resumes (W : ExtensionWalker) (dl : Datalink) (p : Packet) :
    Nat → Locals → List Nat → Prop where
  | refused {l2Len : Nat} {kept : Locals} (header : (ipHeader W dl p l2Len kept).outcome = .left) :
      Resumes W dl p l2Len kept []
  | last {l2Len : Nat} {kept : Locals} {ip : IpHeader} {gtpv1 : Option Nat}
      (header : (ipHeader W dl p l2Len kept).outcome = .ok ip)
      (found : (gtp p ip kept.gtpv1).outcome = .ok (gtpv1, none)) : Resumes W dl p l2Len kept []
  | again {l2Len next : Nat} {kept : Locals} {ip : IpHeader} {gtpv1 : Option Nat}
      {rest : List Nat} (header : (ipHeader W dl p l2Len kept).outcome = .ok ip)
      (found : (gtp p ip kept.gtpv1).outcome = .ok (gtpv1, some next))
      (behind : Resumes W dl p next { fragOff := ip.fragOff, addrCmp := ip.addrCmp, gtpv1 } rest) :
      Resumes W dl p l2Len kept (next :: rest)

/-- IP parsing starts again at these offsets, which increase, so that it ends. -/
structure Decapsulates (W : ExtensionWalker) (dl : Datalink) (p : Packet) (l2Len : Nat)
    (kept : Locals) (starts : List Nat) : Prop where
  resumes : Resumes W dl p l2Len kept starts
  increasing : (l2Len :: starts).IsChain (· < ·)
  bounded : starts.length ≤ p.cap
  ends : (processIp W dl p (p.cap + 1) l2Len kept).outcome ≠ .spun

section
variable {W : ExtensionWalker} {dl : Datalink} {p : Packet} {l2Len hdr start : Nat}
  {kept : Locals} {starts : List Nat}

theorem inner_some (pdu : GPdu W p l2Len hdr) : inner W p l2Len = some (gtpInner p hdr) := by
  obtain ⟨accepted, tunnel, rfl, version, type⟩ := pdu
  rw [inner, if_pos accepted, innerOf, if_pos ⟨tunnel, version, type⟩]

theorem inner_none (other : ∀ hdr, ¬ GPdu W p l2Len hdr) : inner W p l2Len = none := by
  unfold inner
  split
  · rename_i accepted
    rw [innerOf, if_neg]
    rintro ⟨tunnel, version, type⟩
    exact other _ ⟨accepted, tunnel, rfl, version, type⟩
  · rfl

/-- What is found behind an accepted header. -/
theorem found_accepted (dl : Datalink) (kept : Locals) (accepted : Accepted W p l2Len) :
    (ipHeader W dl p l2Len kept).outcome = .ok (headerAt W p l2Len kept) ∧
      (gtp p (headerAt W p l2Len kept) kept.gtpv1).outcome =
        .ok (gtpv1After p (segment W p l2Len) kept.gtpv1, inner W p l2Len) := by
  rw [ipHeader_accepted accepted, gtp_eq rfl rfl rfl kept.gtpv1, inner, if_pos accepted]
  exact ⟨rfl, rfl⟩

/-- Without a tunnel `ProcessPacket` does not come back. -/
theorem resumes_none (other : inner W p l2Len = none) :
    Resumes W dl p l2Len kept starts ↔ starts = [] := by
  by_cases accepted : Accepted W p l2Len
  · obtain ⟨header, found⟩ := found_accepted dl kept accepted
    rw [other] at found
    constructor
    · intro resumes
      cases resumes with
      | refused => rfl
      | last => rfl
      | again header' found' =>
        rw [header] at header'
        cases header'
        rw [found] at found'
        cases found'
    · rintro rfl
      exact .last header found
  · have refused : (ipHeader W dl p l2Len kept).outcome = .left := ipHeader_refused accepted
    constructor
    · intro resumes
      cases resumes with
      | refused => rfl
      | last => rfl
      | again header' =>
        rw [refused] at header'
        cases header'
    · rintro rfl
      exact .refused refused

/-- With one it comes back at the offset behind the header. -/
theorem resumes_some {next : Nat} (tunnel : inner W p l2Len = some next) :
    Resumes W dl p l2Len kept starts ↔ ∃ rest, starts = next :: rest ∧
      Resumes W dl p next (keptAfter W p l2Len kept) rest := by
  have accepted : Accepted W p l2Len := by
    by_contra refused
    rw [inner, if_neg refused] at tunnel
    cases tunnel
  obtain ⟨header, found⟩ := found_accepted dl kept accepted
  rw [tunnel] at found
  constructor
  · intro resumes
    cases resumes with
    | refused header' =>
      rw [header] at header'
      cases header'
    | last header' found' =>
      rw [header] at header'
      cases header'
      rw [found] at found'
      cases found'
    | again header' found' behind =>
      rw [header] at header'
      cases header'
      rw [found] at found'
      cases found'
      exact ⟨_, rfl, behind⟩
  · rintro ⟨rest, rfl, behind⟩
    exact .again header found behind

/-- As often as it comes back, so many rounds and one more are made. -/
theorem ends_of_resumes (resumes : Resumes W dl p l2Len kept starts) {fuel : Nat}
    (enough : starts.length < fuel) : (processIp W dl p fuel l2Len kept).outcome ≠ .spun := by
  induction resumes generalizing fuel with
  | refused header =>
    obtain ⟨fuel, rfl⟩ := Nat.exists_eq_succ_of_ne_zero (Nat.ne_of_gt enough)
    unfold processIp
    rw [bind_of_left _ header]
    simp
  | last header found =>
    obtain ⟨fuel, rfl⟩ := Nat.exists_eq_succ_of_ne_zero (Nat.ne_of_gt enough)
    unfold processIp
    rw [bind_of_ok _ header, bind_of_ok _ found]
    simp
  | again header found behind ih =>
    obtain ⟨fuel, rfl⟩ := Nat.exists_eq_succ_of_ne_zero (Nat.ne_zero_of_lt enough)
    unfold processIp
    rw [bind_of_ok _ header, bind_of_ok _ found]
    exact ih (by simpa using enough)

/-! ## Starts -/

theorem extensions_words {type : UInt8} {off stop : Nat} (chain : Extensions p type off stop) :
    ∃ words, stop = off + 4 * words := by
  induction chain with
  | none => exact ⟨0, rfl⟩
  | @header type off stop announced sized behind ih =>
    obtain ⟨words, rfl⟩ := ih
    exact ⟨(p.data off).toNat + words, by omega⟩

/-- The code finds the packet inside if no flag is set or the one of the sequence number
alone. -/
theorem gtpInner_iff (inside : InnerStart p hdr start) (captured : start + 20 ≤ p.cap) :
    gtpInner p hdr = start ↔ extHdr p hdr = 0 ∧ npduNum p hdr = 0 := by
  have cap := p.cap_lt
  have flags : gtpInner p hdr =
      (hdr + 8 + extHdr p hdr + seqNum p hdr * 4 + npduNum p hdr) % 65536 := rfl
  have seq : seqNum p hdr < 2 := Nat.mod_lt _ (by decide)
  have npdu : npduNum p hdr < 2 := Nat.mod_lt _ (by decide)
  rw [flags]
  cases inside with
  | plain ext seq npdu => omega
  | optional ext some => omega
  | extended ext chain =>
    obtain ⟨words, rfl⟩ := extensions_words chain
    omega

theorem start_behind (inside : InnerStart p hdr start) : hdr + 8 ≤ start := by
  cases inside with
  | plain => exact Nat.le_refl _
  | optional => omega
  | extended ext chain =>
    obtain ⟨words, rfl⟩ := extensions_words chain
    omega

theorem GPdu.behind (pdu : GPdu W p l2Len hdr) : l2Len < hdr := by
  rw [pdu.place, segment]
  split
  · simp only
    omega
  · simp only
    omega

variable {tunnels : List (Nat × Nat)}

/-- The packets inside each other start one behind the other. -/
theorem Tunnels.increasing (nested : Tunnels W p l2Len tunnels) :
    (l2Len :: tunnels.map Prod.snd).IsChain (· < ·) := by
  induction nested with
  | last other => exact .singleton _
  | tunnel pdu inside captured behind ih =>
    refine .cons_cons ?_ ih
    have := pdu.behind
    have := start_behind inside
    omega

theorem Tunnels.bounded (nested : Tunnels W p l2Len tunnels) :
    l2Len + tunnels.length ≤ max l2Len p.cap := by
  induction nested with
  | last other => exact Nat.le_max_left _ _
  | tunnel pdu inside captured behind ih =>
    have := pdu.behind
    have := start_behind inside
    rw [List.length_cons]
    omega

/-- **Tunnels.** IP parsing starts again at the packets inside exactly if no header has
extension headers or an N-PDU number. -/
theorem decapsulates_iff (nested : Tunnels W p l2Len tunnels) (dl : Datalink) (kept : Locals) :
    Decapsulates W dl p l2Len kept (tunnels.map Prod.snd) ↔
      ∀ tunnel ∈ tunnels, extHdr p tunnel.1 = 0 ∧ npduNum p tunnel.1 = 0 := by
  have resumes : Resumes W dl p l2Len kept (tunnels.map Prod.snd) ↔
      ∀ tunnel ∈ tunnels, extHdr p tunnel.1 = 0 ∧ npduNum p tunnel.1 = 0 := by
    induction nested generalizing kept with
    | last other => simp [resumes_none (inner_none other)]
    | tunnel pdu inside captured behind ih =>
      rw [resumes_some (inner_some pdu), List.forall_mem_cons, ← gtpInner_iff inside captured,
        List.map_cons]
      constructor
      · rintro ⟨rest, same, again⟩
        obtain ⟨start, rfl⟩ := List.cons.inj same
        exact ⟨start.symm, (ih _).mp (start ▸ again)⟩
      · rintro ⟨start, more⟩
        refine ⟨_, congrArg (· :: _) start.symm, ?_⟩
        rw [start]
        exact (ih _).mpr more
  rw [← resumes]
  refine ⟨fun decapsulates => decapsulates.resumes, fun again => ?_⟩
  have bounded := nested.bounded
  refine ⟨again, nested.increasing, ?_, ends_of_resumes again ?_⟩
  all_goals
    rw [List.length_map]
    omega

end

/-! ## Frames -/

/-- A G-PDU of flags and of what they announce, with a UDP packet inside. -/
def gtpFrame (flags : UInt8) (options : List UInt8) : Packet :=
  Frames.udpFrame 1 2 2152 2152 ([flags, 0xff, 0, 0, 0, 0, 0, 1] ++ options ++
    Frames.ipv4 17 (Frames.host 3) (Frames.host 4) (Frames.udp 4000 53 []))

/-- One tunnel, whose header starts behind 42 bytes. -/
theorem tunnels_gtpFrame {flags : UInt8} {options : List UInt8} {start : Nat}
    (pdu : GPdu .none (gtpFrame flags options) 14 42)
    (inside : InnerStart (gtpFrame flags options) 42 start)
    (captured : start + 20 ≤ (gtpFrame flags options).cap)
    (single : inner .none (gtpFrame flags options) start = none) :
    Tunnels .none (gtpFrame flags options) 14 [(42, start)] := by
  refine .tunnel pdu inside captured (.last fun hdr other => ?_)
  rw [inner_some other] at single
  cases single

/-- Behind a sequence number the packet inside is found. -/
theorem sequence_decapsulated :
    Decapsulates .none .en10mb (gtpFrame 0x32 [0, 7, 0, 0]) 14 {} [54] := by
  refine (decapsulates_iff (tunnels_gtpFrame ?_ ?_ ?_ ?_ : Tunnels .none
    (gtpFrame 0x32 [0, 7, 0, 0]) 14 [(42, 54)]) .en10mb {}).mpr ?_
  · exact ⟨by decide +kernel, by decide +kernel, by decide +kernel, by decide +kernel,
      by decide +kernel⟩
  · exact .optional (by decide) (.inl (by decide))
  · decide +kernel
  · decide +kernel
  · simp only [List.mem_singleton, forall_eq]
    decide +kernel

/-- Behind an extension header it is not. -/
theorem extension_missed :
    Tunnels .none (gtpFrame 0x34 [0, 0, 0, 0x85, 1, 0, 0, 0]) 14 [(42, 58)] ∧
      ¬ Decapsulates .none .en10mb (gtpFrame 0x34 [0, 0, 0, 0x85, 1, 0, 0, 0]) 14 {} [58] := by
  have pdu : GPdu .none (gtpFrame 0x34 [0, 0, 0, 0x85, 1, 0, 0, 0]) 14 42 :=
    ⟨by decide +kernel, by decide +kernel, by decide +kernel, by decide +kernel,
      by decide +kernel⟩
  constructor
  · refine tunnels_gtpFrame pdu (.extended (by decide) ?_) (by decide +kernel) (by decide +kernel)
    exact .header (by decide +kernel) (by decide +kernel) (.none)
  · intro decapsulates
    obtain ⟨rest, same, -⟩ := (resumes_some (inner_some pdu)).mp decapsulates.resumes
    have start : gtpInner (gtpFrame 0x34 [0, 0, 0, 0x85, 1, 0, 0, 0]) 42 = 51 := by
      decide +kernel
    rw [start] at same
    cases same

end NetifyAgent.GtpTunnels
