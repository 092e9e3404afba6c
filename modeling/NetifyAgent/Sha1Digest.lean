import NetifyAgent.Sha1

/-! The functions of `nd-sha1.c` compute the secure hash of everything that was
written, and stay inside their buffers. -/
namespace NetifyAgent.Sha1
open SecureHash Streaming

/-! ## The eighty lines are the eighty rounds -/

theorem rol_five (x : UInt32) : rol x 5 = rotl 5 x := by
  apply UInt32.toBitVec_inj.mp
  simp [rol, rotl, BitVec.rotateLeft_def]

theorem rol_thirty (x : UInt32) : rol x 30 = rotl 30 x := by
  apply UInt32.toBitVec_inj.mp
  simp [rol, rotl, BitVec.rotateLeft_def]

theorem rol_one (x : UInt32) : rol x 1 = rotl 1 x := by
  apply UInt32.toBitVec_inj.mp
  simp [rol, rotl, BitVec.rotateLeft_def]

theorem f1_eq : F1 = ch := by
  funext b c d
  apply UInt32.toBitVec_inj.mp
  apply BitVec.eq_of_getLsbD_eq
  intro i within
  simp only [F1, ch, UInt32.toBitVec_xor, UInt32.toBitVec_and, UInt32.toBitVec_not,
    BitVec.getLsbD_xor, BitVec.getLsbD_and, BitVec.getLsbD_not, within, decide_true,
    Bool.true_and]
  cases b.toBitVec.getLsbD i <;> cases c.toBitVec.getLsbD i <;>
    cases d.toBitVec.getLsbD i <;> rfl

theorem f3_eq : F3 = maj := by
  funext b c d
  apply UInt32.toBitVec_inj.mp
  apply BitVec.eq_of_getLsbD_eq
  intro i _
  simp only [F3, maj, UInt32.toBitVec_xor, UInt32.toBitVec_and, UInt32.toBitVec_or,
    BitVec.getLsbD_xor, BitVec.getLsbD_and, BitVec.getLsbD_or]
  cases b.toBitVec.getLsbD i <;> cases c.toBitVec.getLsbD i <;>
    cases d.toBitVec.getLsbD i <;> rfl

theorem word_spec {block : List UInt8} {t : Nat} {x : Window} (holds : x.Holds block t) :
    (word x t).1 = w block t ∧ (word x t).2.Holds block (t + 1) := by
  by_cases input : t < 16
  · rw [word, if_pos input]
    refine ⟨holds t (by omega) (by omega), fun i below recent => holds i ?_ ?_⟩ <;> omega
  · have next : rol (x[t % 16] ^^^ x[(t - 14) % 16] ^^^ x[(t - 8) % 16] ^^^ x[(t - 3) % 16]) 1 =
        w block t := by
      have oldest : x[t % 16] = w block (t - 16) := by
        have same : (t - 16) % 16 = t % 16 := by omega
        simpa only [same] using holds (t - 16) (by omega) (by omega)
      rw [w_later block (by omega), rol_one, oldest, holds (t - 14) (by omega) (by omega),
        holds (t - 8) (by omega) (by omega), holds (t - 3) (by omega) (by omega)]
      congr 1
      ac_rfl
    rw [word, if_neg input]
    refine ⟨next, fun i below recent => ?_⟩
    simp only [M]
    rw [Vector.getElem_set]
    split
    · rename_i same
      have now : i = t := by omega
      rw [next, now]
    · rename_i other
      exact holds i (by omega) (by omega)

/-- A line is a round, for the registers it names. -/
theorem R_spec {F : UInt32 → UInt32 → UInt32 → UInt32} {K : UInt32} {t : Nat}
    (function : F = f t) (constant : K = k t) (block : List UInt8) (s : Chaining) :
    (⟨(R F K (w block t) s.a s.b s.c s.d s.e).1, s.a, (R F K (w block t) s.a s.b s.c s.d s.e).2,
      s.c, s.d⟩ : Chaining) = SecureHash.round block s t := by
  subst function constant
  simp only [R, SecureHash.round, rol_five, rol_thirty, Chaining.mk.injEq, and_true]
  ac_rfl

/-- Registers and window before line `t` of a block. -/
structure Tracks (block : List UInt8) (s : Chaining) (t : Nat) (now : Chaining × Window) :
    Prop where
  registers : now.1 = rounds block s t
  window : now.2.Holds block t

section
variable {F : UInt32 → UInt32 → UInt32 → UInt32} {K : UInt32} {t : Nat} {block : List UInt8}
  {s : Chaining} {now : Chaining × Window}

theorem five_spec (function : ∀ i, t ≤ i → i < t + 5 → F = f i)
    (constant : ∀ i, t ≤ i → i < t + 5 → K = k i) (tracks : Tracks block s t now) :
    Tracks block s (t + 5) (five F K t now) := by
  have line {x : Window} {t : Nat} (holds : x.Holds block t) :
      ∃ x', word x t = (w block t, x') ∧ x'.Holds block (t + 1) :=
    ⟨(word x t).2, Prod.ext (word_spec holds).1 rfl, (word_spec holds).2⟩
  obtain ⟨⟨a, b, c, d, e⟩, x⟩ := now
  obtain ⟨registers, window⟩ := tracks
  simp only at registers window
  obtain ⟨x₁, first, window⟩ := line window
  obtain ⟨x₂, second, window⟩ := line window
  obtain ⟨x₃, third, window⟩ := line window
  obtain ⟨x₄, fourth, window⟩ := line window
  obtain ⟨x₅, fifth, window⟩ := line window
  have step (i : Nat) (lower : t ≤ i) (upper : i < t + 5) :=
    R_spec (function i lower upper) (constant i lower upper) block
  simp only [five, first, second, third, fourth, fifth]
  refine ⟨?_, window⟩
  have five : rounds block s (t + 5) = round block (round block (round block (round block
      (round block ⟨a, b, c, d, e⟩ t) (t + 1)) (t + 2)) (t + 3)) (t + 4) := by
    rw [registers]
    rfl
  rw [five, ← step t (by omega) (by omega), ← step (t + 1) (by omega) (by omega),
    ← step (t + 2) (by omega) (by omega), ← step (t + 3) (by omega) (by omega),
    ← step (t + 4) (by omega) (by omega)]

theorem twenty_spec (function : ∀ i, t ≤ i → i < t + 20 → F = f i)
    (constant : ∀ i, t ≤ i → i < t + 20 → K = k i) (tracks : Tracks block s t now) :
    Tracks block s (t + 20) (twenty F K t now) := by
  have group (j : Nat) (within : j + 5 ≤ 20) {now : Chaining × Window}
      (tracks : Tracks block s (t + j) now) : Tracks block s (t + j + 5) (five F K (t + j) now) :=
    five_spec (fun i _ _ => function i (by omega) (by omega))
      (fun i _ _ => constant i (by omega) (by omega)) tracks
  exact group 15 (by omega) (group 10 (by omega) (group 5 (by omega) (group 0 (by omega) tracks)))

end

theorem lines_spec {block : List UInt8} {s : Chaining} {x : Window} (holds : x.Holds block 0) :
    (lines (s, x)).1 = rounds block s 80 := by
  have start : Tracks block s 0 (s, x) := ⟨rfl, holds⟩
  have first {now} (tracks : Tracks block s 0 now) : Tracks block s 20 (twenty F1 K1 0 now) := by
    refine twenty_spec (fun i _ upper => ?_) (fun i _ upper => ?_) tracks
    · rw [f1_eq, f, if_pos upper]
    · rw [k, if_pos upper, K1]
  have second {now} (tracks : Tracks block s 20 now) :
      Tracks block s 40 (twenty F2 K2 20 now) := by
    refine twenty_spec (fun i lower upper => ?_) (fun i lower upper => ?_) tracks
    · rw [f, if_neg (by omega), if_pos (by omega)]
      rfl
    · rw [k, if_neg (by omega), if_pos (by omega), K2]
  have third {now} (tracks : Tracks block s 40 now) :
      Tracks block s 60 (twenty F3 K3 40 now) := by
    refine twenty_spec (fun i lower upper => ?_) (fun i lower upper => ?_) tracks
    · rw [f3_eq, f, if_neg (by omega), if_neg (by omega), if_pos (by omega)]
    · rw [k, if_neg (by omega), if_neg (by omega), if_pos (by omega), K3]
  have fourth {now} (tracks : Tracks block s 60 now) :
      Tracks block s 80 (twenty F4 K4 60 now) := by
    refine twenty_spec (fun i lower upper => ?_) (fun i lower upper => ?_) tracks
    · rw [f, if_neg (by omega), if_neg (by omega), if_neg (by omega)]
      rfl
    · rw [k, if_neg (by omega), if_neg (by omega), if_neg (by omega), K4]
  exact (fourth (third (second (first start)))).registers

/-- One turn of the loop compresses the block it reads. -/
theorem turn_spec (o : ByteOrder) (s : Chaining) (words : List UInt8) :
    turn o s words = compress s (words.take 64) := by
  have loaded (i : Nat) (within : i < 16) :
      wordAt words i = wordAt (words.take 64) i := by
    have byte (j : Nat) (inside : j < 64) : (words.take 64).getD j 0 = words.getD j 0 := by
      simp [List.getD_eq_getElem?_getD, inside]
    rw [wordAt, wordAt, byte _ (by omega), byte _ (by omega), byte _ (by omega),
      byte _ (by omega)]
  simp only [turn, compress]
  rw [@lines_spec (words.take 64)]
  intro i below recent
  have input : i < 16 := by omega
  rw [w_input _ input, ← loaded i input]
  simp only [Vector.getElem_ofFn, swap_load, Nat.mod_eq_of_lt input, wordAt]

theorem turns_spec (o : ByteOrder) {n : Nat} {words : List UInt8} (enough : n * 64 ≤ words.length)
    (s : Chaining) : turns o n s words = some (absorbs compress 64 s words n) := by
  induction n generalizing s words with
  | zero => rfl
  | succ n ih =>
    have left : n * 64 ≤ (words.drop 64).length := by
      rw [List.length_drop]
      omega
    rw [turns, if_neg (by omega), ih left, turn_spec, absorbs]

/-! ## The context -/

/-- A copy changes what it copies over and nothing else. -/
theorem copied {buffer held : Buffer} {off : Nat} {bytes : List UInt8}
    (done : memcpy buffer off bytes = some held) :
    held.1.take (off + bytes.length) = buffer.1.take off ++ bytes ∧
      held.1.drop (off + bytes.length) = buffer.1.drop (off + bytes.length) := by
  have size := buffer.2
  unfold memcpy at done
  split at done
  · obtain rfl := Option.some.inj done
    have front : (buffer.1.take off ++ bytes).length = off + bytes.length := by
      rw [List.length_append, List.length_take]
      omega
    exact ⟨List.take_left' front, List.drop_left' front⟩
  · cases done

theorem memcpy_spec (buffer : Buffer) (off : Nat) (bytes : List UInt8)
    (fits : off + bytes.length ≤ 128) :
    ∃ held, memcpy buffer off bytes = some held ∧
      held.1.take (off + bytes.length) = buffer.1.take off ++ bytes := by
  obtain ⟨held, done⟩ : ∃ held, memcpy buffer off bytes = some held := ⟨_, dif_pos fits⟩
  exact ⟨held, done, (copied done).1⟩

/-- The bytes that were counted. -/
def Context.total (ctx : Context) : Nat := ctx.low.toNat + 2 ^ 32 * ctx.high.toNat

theorem writeBlock_spec (o : ByteOrder) (ctx : Context) (buffer : List UInt8) (n : Nat)
    (enough : n * 64 ≤ buffer.length) :
    ∃ low high, writeBlock o ctx buffer (n * 64) =
        some { ctx with
          words := absorb compress 64 ctx.words (buffer.take (n * 64)), low := low, high := high } ∧
      (low.toNat + 2 ^ 32 * high.toNat) % 2 ^ 64 = (ctx.total + n * 64) % 2 ^ 64 := by
  have count : (n * 64 / 4 + 15) / 16 = n := by omega
  have all : (buffer.take (n * 64)).length = n * 64 := by
    rw [List.length_take]
    omega
  have absorbed : absorbs compress 64 ctx.words buffer n =
      absorb compress 64 ctx.words (buffer.take (n * 64)) := by
    rw [absorb, all, Nat.mul_div_cancel _ (by omega)]
    conv_lhs => rw [← List.take_append_drop (n * 64) buffer]
    exact absorbs_append all.ge _ _
  refine ⟨ctx.low + UInt32.ofNat (n * 64), ctx.high + (UInt32.ofNat ((n * 64) >>> 31 >>> 1) +
    if ctx.low + UInt32.ofNat (n * 64) < UInt32.ofNat (n * 64) then 1 else 0), ?_, ?_⟩
  · simp only [writeBlock]
    rw [count, turns_spec o enough, absorbed]
    rfl
  · simp only [Context.total, UInt32.toNat_add, UInt32.lt_iff_toNat_lt, UInt32.toNat_ofNat',
      Nat.shiftRight_eq_div_pow]
    have low := ctx.low.toNat_lt
    have high := ctx.high.toNat_lt
    split <;> simp only [UInt32.toNat_one, UInt32.toNat_zero] <;> omega

/-- A context has been written a message: it has absorbed whole blocks of it, and
holds the rest back in its buffer. -/
structure Written (ctx : Context) (message : List UInt8) : Prop where
  stands : Streaming.Standing compress 64 initial ctx.words (ctx.buffer.1.take ctx.buflen) message
  small : ctx.buflen ≤ 64
  counted : (ctx.total + ctx.buflen) % 2 ^ 64 = message.length % 2 ^ 64

theorem written_init (buffer : Buffer) : Written (init buffer) [] where
  stands := Streaming.Standing.begin
  small := Nat.zero_le 64
  counted := by simp [init, Context.total]

section
variable (o : ByteOrder) {ctx : Context} {message : List UInt8}

/-- Whole blocks of the buffer are processed, and the rest moves to its front. -/
theorem drain_spec (ctx : Context) (n rest : Nat) (small : rest ≤ 64) (fits : n * 64 + rest ≤ 128)
    (stands : Streaming.Standing compress 64 initial ctx.words (ctx.buffer.1.take (n * 64 + rest)) message)
    (counted : (ctx.total + (n * 64 + rest)) % 2 ^ 64 = message.length % 2 ^ 64) :
    ∃ ctx', drain o ctx (n * 64) rest = some ctx' ∧ Written ctx' message ∧
      ctx'.buflen = rest := by
  have size := ctx.buffer.2
  obtain ⟨low, high, done, total⟩ := writeBlock_spec o ctx ctx.buffer.1 n
    (by omega)
  have length : ((ctx.buffer.1.drop (n * 64)).take rest).length = rest := by
    rw [List.length_take, List.length_drop]
    omega
  obtain ⟨held, moved, front⟩ := memcpy_spec ctx.buffer 0
    ((ctx.buffer.1.drop (n * 64)).take rest) (by omega)
  rw [length, List.take_zero, List.nil_append, Nat.zero_add] at front
  refine ⟨{ ctx with
    words := absorb compress 64 ctx.words (ctx.buffer.1.take (n * 64))
    low := low
    high := high
    buffer := held
    buflen := rest }, ?_, ⟨?_, small, ?_⟩, rfl⟩
  · simp only [drain, done, Option.bind_eq_bind, Option.bind_some, Buffer.bytes, if_pos fits, moved]
  · simp only [front]
    have whole : 64 ∣ (ctx.buffer.1.take (n * 64)).length := by
      rw [List.length_take, Nat.min_eq_left (by omega)]
      exact Nat.dvd_mul_left 64 n
    refine Streaming.Standing.absorb ?_ whole (by omega)
    rwa [← List.take_add]
  · simp only [Context.total] at total counted ⊢
    omega

theorem topUp_spec (address : Nat) (buffer : List UInt8) (written : Written ctx message) :
    ∃ ctx' next taken rest, topUp o ctx address buffer = some (ctx', next, rest) ∧
      buffer = taken ++ rest ∧ Written ctx' (message ++ taken) ∧
      (ctx'.buflen = 0 ∨ rest = []) := by
  obtain ⟨stands, small, counted⟩ := written
  have size := ctx.buffer.2
  let add := if 128 - ctx.buflen > buffer.length then buffer.length else 128 - ctx.buflen
  have bound : add ≤ buffer.length ∧ add ≤ 128 - ctx.buflen ∧
      (add = buffer.length ∨ add = 128 - ctx.buflen) := by
    simp only [add]
    split <;> omega
  have length : (buffer.take add).length = add := by
    rw [List.length_take]
    omega
  obtain ⟨held, copied, front⟩ := memcpy_spec ctx.buffer ctx.buflen (buffer.take add) (by omega)
  rw [length] at front
  have more := stands.hold (buffer.take add)
  rw [← front] at more
  have total : (ctx.total + (ctx.buflen + add)) % 2 ^ 64 =
      (message ++ buffer.take add).length % 2 ^ 64 := by
    rw [List.length_append, length]
    omega
  by_cases drained : ctx.buflen + add > 64
  · obtain ⟨n, whole⟩ : ∃ n, (ctx.buflen + add) / 64 = n := ⟨_, rfl⟩
    have parts : n * 64 + (ctx.buflen + add) % 64 = ctx.buflen + add := by omega
    obtain ⟨ctx', done, written, left⟩ := drain_spec o
      { ctx with buffer := held, buflen := ctx.buflen + add } n ((ctx.buflen + add) % 64)
      (by omega) (by omega) (by rwa [parts]) (by rwa [parts])
    refine ⟨ctx', address + add, buffer.take add, buffer.drop add, ?_,
      (List.take_append_drop add buffer).symm, written, ?_⟩
    · simp only [topUp]
      simp only [add] at copied drained whole done
      rw [copied]
      simp only [Option.bind_eq_bind, Option.bind_some]
      rw [if_pos drained, whole, done]
      rfl
    · rw [left, List.drop_eq_nil_iff]
      omega
  · refine ⟨{ ctx with buffer := held, buflen := ctx.buflen + add }, address + add,
      buffer.take add, buffer.drop add, ?_, (List.take_append_drop add buffer).symm,
      ⟨more, Nat.not_lt.mp drained, total⟩, .inr (List.drop_eq_nil_iff.mpr (by omega))⟩
    simp only [topUp]
    simp only [add] at copied
    rw [copied]
    simp only [Option.bind_eq_bind, Option.bind_some]
    rw [if_neg drained]

/-- Whole blocks are processed where they are while no bytes are held back. -/
theorem blocks_spec (buffer : List UInt8) (n : Nat) (enough : n * 64 ≤ buffer.length)
    (held : Buffer) (written : Written ctx message) (empty : ctx.buflen = 0) :
    ∃ ctx', writeBlock o { ctx with buffer := held } buffer (n * 64) = some ctx' ∧
      Written ctx' (message ++ buffer.take (n * 64)) ∧ ctx'.buflen = 0 := by
  obtain ⟨stands, small, counted⟩ := written
  have length : (buffer.take (n * 64)).length = n * 64 := by
    rw [List.length_take]
    omega
  obtain ⟨low, high, done, total⟩ := writeBlock_spec o { ctx with buffer := held } _ _ enough
  refine ⟨_, done, ⟨?_, small, ?_⟩, empty⟩
  · rw [empty, List.take_zero] at stands
    have more := stands.hold (buffer.take (n * 64))
    rw [List.nil_append, ← List.append_nil (buffer.take (n * 64))] at more
    simpa only [empty, List.take_zero, List.append_nil] using
      more.absorb (by rw [length]; exact Nat.dvd_mul_left 64 n) (by omega)
  · rw [List.length_append, length]
    simp only [Context.total] at total counted ⊢
    omega

theorem bounce_spec (buffer : List UInt8) (written : Written ctx message)
    (empty : ctx.buflen = 0) :
    ∃ ctx' taken rest, bounce o ctx buffer = some (ctx', rest) ∧ buffer = taken ++ rest ∧
      Written ctx' (message ++ taken) ∧ ctx'.buflen = 0 ∧ rest.length ≤ 64 := by
  fun_induction bounce o ctx buffer generalizing message with
  | case1 ctx buffer longer ih =>
    have length : (buffer.take 64).length = 64 := by
      rw [List.length_take]
      omega
    obtain ⟨held, copied, front⟩ := memcpy_spec ctx.buffer 0 (buffer.take 64) (by omega)
    rw [length, List.take_zero, List.nil_append, Nat.zero_add] at front
    obtain ⟨next, done, written, empty⟩ := blocks_spec o held.1 1
      (by have := held.2; omega) held written empty
    rw [Nat.one_mul, front] at written
    obtain ⟨ctx', taken, rest, looped, parts, written, empty, short⟩ := ih next written empty
    refine ⟨ctx', buffer.take 64 ++ taken, rest, ?_, ?_, ?_, empty, short⟩
    · simp only [copied, Option.bind_eq_bind, Option.bind_some]
      rw [Nat.one_mul] at done
      rw [done, Option.bind_some, looped]
    · rw [List.append_assoc, ← parts, List.take_append_drop]
    · rwa [← List.append_assoc]
  | case2 ctx buffer short =>
    exact ⟨ctx, [], buffer, rfl, rfl, by rwa [List.append_nil], empty, by omega⟩

theorem completeBlocks_spec (address : Nat) (buffer : List UInt8) (written : Written ctx message)
    (ready : ctx.buflen = 0 ∨ buffer = []) :
    ∃ ctx' taken rest, completeBlocks o ctx address buffer = some (ctx', rest) ∧
      buffer = taken ++ rest ∧ Written ctx' (message ++ taken) ∧
      (ctx'.buflen = 0 ∨ rest = []) ∧ rest.length ≤ 64 := by
  by_cases complete : 64 ≤ buffer.length
  · have empty : ctx.buflen = 0 := by
      rcases ready with empty | rfl
      · exact empty
      · simp at complete
    by_cases unaligned : address % 4 ≠ 0
    · obtain ⟨ctx', taken, rest, done, parts, written, empty, short⟩ :=
        bounce_spec o buffer written empty
      refine ⟨ctx', taken, rest, ?_, parts, written, .inl empty, short⟩
      rw [completeBlocks, if_pos complete, if_pos unaligned, done]
    · obtain ⟨ctx', done, written, empty⟩ := blocks_spec o buffer
        (buffer.length / 64) (by omega) ctx.buffer written empty
      refine ⟨ctx', _, buffer.drop (buffer.length / 64 * 64), ?_,
        (List.take_append_drop _ _).symm, written, .inl empty, ?_⟩
      · rw [completeBlocks, if_pos complete, if_neg unaligned]
        simp only [done, Option.bind_eq_bind, Option.bind_some]
      · rw [List.length_drop]
        omega
  · exact ⟨ctx, [], buffer, if_neg complete, rfl, by rwa [List.append_nil], ready, by omega⟩

theorem moveRemaining_spec {buffer : List UInt8} (short : buffer.length ≤ 64)
    (written : Written ctx message) (ready : ctx.buflen = 0 ∨ buffer = []) :
    ∃ ctx', moveRemaining o ctx buffer = some ctx' ∧ Written ctx' (message ++ buffer) := by
  by_cases some : 0 < buffer.length
  · have empty : ctx.buflen = 0 := by
      rcases ready with empty | rfl
      · exact empty
      · simp at some
    obtain ⟨stands, small, counted⟩ := written
    obtain ⟨held, copied, front⟩ := memcpy_spec ctx.buffer ctx.buflen buffer (by omega)
    have more := stands.hold buffer
    rw [← front] at more
    have total : (ctx.total + (ctx.buflen + buffer.length)) % 2 ^ 64 =
        (message ++ buffer).length % 2 ^ 64 := by
      rw [List.length_append]
      omega
    by_cases full : 64 ≤ ctx.buflen + buffer.length
    · have parts : 1 * 64 + (ctx.buflen + buffer.length - 64) = ctx.buflen + buffer.length := by
        omega
      obtain ⟨ctx', done, written, -⟩ := drain_spec o { ctx with buffer := held } 1
        (ctx.buflen + buffer.length - 64) (by omega) (by omega) (by rwa [parts])
        (by rwa [parts])
      refine ⟨ctx', ?_, written⟩
      rw [moveRemaining, if_pos some]
      simp only [copied, Option.bind_eq_bind, Option.bind_some]
      rw [if_pos full, ← done]
    · refine ⟨{ ctx with buffer := held, buflen := ctx.buflen + buffer.length }, ?_,
        ⟨more, by show ctx.buflen + buffer.length ≤ 64; omega, total⟩⟩
      rw [moveRemaining, if_pos some]
      simp only [copied, Option.bind_eq_bind, Option.bind_some]
      rw [if_neg full]
  · have none : buffer = [] := List.eq_nil_of_length_eq_zero (by omega)
    exact ⟨ctx, if_neg some, by rwa [none, List.append_nil]⟩

/-- **Step lemma.** Writing a buffer writes its bytes, whatever its address. -/
theorem write_spec (address : Nat) (buffer : List UInt8) (written : Written ctx message) :
    ∃ ctx', write o ctx address buffer = some ctx' ∧ Written ctx' (message ++ buffer) := by
  have first : ∃ ctx₁ next taken rest, (if ctx.buflen ≠ 0 then topUp o ctx address buffer
      else some (ctx, address, buffer)) = some (ctx₁, next, rest) ∧ buffer = taken ++ rest ∧
      Written ctx₁ (message ++ taken) ∧ (ctx₁.buflen = 0 ∨ rest = []) := by
    by_cases holding : ctx.buflen ≠ 0
    · rw [if_pos holding]
      exact topUp_spec o address buffer written
    · rw [if_neg holding]
      exact ⟨ctx, address, [], buffer, rfl, rfl, by rwa [List.append_nil],
        .inl (not_not.mp holding)⟩
  obtain ⟨ctx₁, next, taken, rest, started, parts, written, ready⟩ := first
  obtain ⟨ctx₂, taken', rest', processed, parts', written, ready, short⟩ :=
    completeBlocks_spec o next rest written ready
  obtain ⟨ctx', moved, written⟩ := moveRemaining_spec o short written ready
  refine ⟨ctx', ?_, ?_⟩
  · simp only [write, started, processed, moved, Option.bind_eq_bind, Option.bind_some]
  · rwa [List.append_assoc, List.append_assoc, ← parts', ← parts] at written

/-- **Run lemma.** One buffer after the other writes them all. -/
theorem writes_spec (buffers : List (Nat × List UInt8)) (written : Written ctx message) :
    ∃ ctx', writes o ctx buffers = some ctx' ∧
      Written ctx' (message ++ (buffers.map Prod.snd).flatten) := by
  induction buffers generalizing ctx message with
  | nil => exact ⟨ctx, rfl, by simpa using written⟩
  | cons b rest ih =>
    obtain ⟨address, buffer⟩ := b
    obtain ⟨next, done, written⟩ := write_spec o address buffer written
    obtain ⟨ctx', finished, written⟩ := ih written
    refine ⟨ctx', ?_, ?_⟩
    · simp only [writes, done, Option.bind_eq_bind, Option.bind_some, finished]
    · simpa only [List.map_cons, List.flatten_cons, List.append_assoc] using written

end

/-! ## The result -/

/-- The two words of a length in bits, from the two counters of a length in bytes. -/
theorem lengthField_spec {low high : UInt32} {length : Nat}
    (counted : (low.toNat + 2 ^ 32 * high.toNat) % 2 ^ 64 = length % 2 ^ 64) :
    bytesOf ((high <<< 3) ||| (low >>> 29)) ++ bytesOf (low <<< 3) = lengthField (8 * length) := by
  have lowBound := low.toNat_lt
  have highBound := high.toNat_lt
  have upper : (high <<< 3) ||| (low >>> 29) = UInt32.ofNat (8 * length / 2 ^ 32) := by
    apply UInt32.toNat_inj.mp
    have carried : low.toNat / 2 ^ 29 < 2 ^ 3 := by omega
    have kept : high.toNat * 2 ^ 3 % 2 ^ 32 = 2 ^ 3 * (high.toNat % 2 ^ 29) := by omega
    rw [UInt32.toNat_or, UInt32.toNat_shiftLeft, UInt32.toNat_shiftRight, UInt32.toNat_ofNat',
      Nat.shiftLeft_eq, Nat.shiftRight_eq_div_pow]
    show high.toNat * 2 ^ 3 % 2 ^ 32 ||| low.toNat / 2 ^ 29 = _
    rw [kept, ← Nat.two_pow_add_eq_or_of_lt carried]
    omega
  have lower : low <<< 3 = UInt32.ofNat (8 * length) := by
    apply UInt32.toNat_inj.mp
    rw [UInt32.toNat_shiftLeft, UInt32.toNat_ofNat', Nat.shiftLeft_eq]
    show low.toNat * 2 ^ 3 % 2 ^ 32 = _
    omega
  rw [upper, lower, lengthField]

/-- What the result is computed from: what was held back, the fill, and the length. -/
theorem result_block {buffer h₁ h₂ h₃ : Buffer} {p held : Nat} {hi lo fill : List UInt8}
    (first : memcpy buffer p hi = some h₁) (second : memcpy h₁ (p + 4) lo = some h₂)
    (third : memcpy h₂ held fill = some h₃) (hiWidth : hi.length = 4) (loWidth : lo.length = 4)
    (ends : held + fill.length = p) (fits : p + 8 ≤ 128) :
    h₃.1.take (p + 8) = buffer.1.take held ++ (fill ++ (hi ++ lo)) := by
  have size := buffer.2
  obtain ⟨front₁, -⟩ := copied first
  obtain ⟨front₂, -⟩ := copied second
  obtain ⟨front₃, back₃⟩ := copied third
  rw [hiWidth] at front₁
  rw [loWidth, front₁] at front₂
  rw [ends] at front₃ back₃
  have prior : (buffer.1.take p).length = p := by
    rw [List.length_take]
    omega
  have words : (h₂.1.drop p).take 8 = hi ++ lo := by
    have cut : (h₂.1.take (p + 8)).drop p = (h₂.1.drop p).take 8 := by
      rw [List.drop_take, Nat.add_sub_cancel_left]
    rw [← cut, show p + 8 = p + 4 + 4 from rfl, front₂, List.append_assoc,
      List.drop_left' prior]
  have kept : h₂.1.take held = buffer.1.take held := by
    have cut : (h₂.1.take (p + 8)).take held = h₂.1.take held := by
      rw [List.take_take, Nat.min_eq_left (by omega)]
    rw [← cut, show p + 8 = p + 4 + 4 from rfl, front₂, List.append_assoc,
      List.take_append_of_le_length (by omega), List.take_take, Nat.min_eq_left (by omega)]
  rw [List.take_add, front₃, back₃, words, kept, List.append_assoc]

/-- The bytes come out most significant first on every machine. -/
theorem read_spec (o : ByteOrder) (ctx : Context) : read o ctx = ctx.words.bytes := by
  simp only [read, setUint32_swap, Chaining.bytes]

theorem result_spec (o : ByteOrder) {ctx : Context} {message : List UInt8}
    (written : Written ctx message) : result o ctx = some (digest message) := by
  obtain ⟨stands, small, counted⟩ := written
  have size := ctx.buffer.2
  -- the length word starts behind 56 bytes, or behind 120 if the delimiter does not fit
  let p := if ctx.buflen < 56 then 56 else 120
  let n := if ctx.buflen < 56 then 1 else 2
  have place : ctx.buflen < p ∧ p + 8 = n * 64 ∧ p - ctx.buflen ≤ 64 ∧ p + 8 ≤ 128 := by
    simp only [p, n]
    split <;> omega
  obtain ⟨before, ends, filled, fits⟩ := place
  have words : ((if ctx.buflen < 56 then 64 / 4 else 64 * 2 / 4) - 2) * 4 = p ∧
      ((if ctx.buflen < 56 then 64 / 4 else 64 * 2 / 4) - 1) * 4 = p + 4 ∧
      (if ctx.buflen < 56 then 64 / 4 else 64 * 2 / 4) * 4 = n * 64 := by
    simp only [p, n]
    split <;> omega
  obtain ⟨offHigh, offLow, processed⟩ := words
  let low := ctx.low + UInt32.ofNat ctx.buflen
  let high := if low < UInt32.ofNat ctx.buflen then ctx.high + 1 else ctx.high
  have total : (low.toNat + 2 ^ 32 * high.toNat) % 2 ^ 64 = message.length % 2 ^ 64 := by
    have lowBound := ctx.low.toNat_lt
    have highBound := ctx.high.toNat_lt
    simp only [Context.total] at counted
    simp only [high, low, UInt32.lt_iff_toNat_lt, UInt32.toNat_add, UInt32.toNat_ofNat']
    split
    · simp only [UInt32.toNat_add, UInt32.toNat_one]
      omega
    · omega
  let hi := setUint32 o (swap o ((high <<< 3) ||| (low >>> 29)))
  let lo := setUint32 o (swap o (low <<< 3))
  have field : hi ++ lo = lengthField (8 * message.length) := by
    simp only [hi, lo, setUint32_swap]
    exact lengthField_spec total
  have hiWidth : hi.length = 4 := by simp [hi, setUint32_swap]
  have loWidth : lo.length = 4 := by simp [lo, setUint32_swap]
  have fillWidth : (fillbuf.take (p - ctx.buflen)).length = p - ctx.buflen := by
    rw [List.length_take]
    simp only [fillbuf, List.length_cons, List.length_replicate]
    omega
  obtain ⟨h₁, first, -⟩ := memcpy_spec ctx.buffer p hi (by omega)
  obtain ⟨h₂, second, -⟩ := memcpy_spec h₁ (p + 4) lo (by omega)
  obtain ⟨h₃, third, -⟩ := memcpy_spec h₂ ctx.buflen
    (fillbuf.take (p - ctx.buflen)) (by omega)
  have block := result_block first second third hiWidth loWidth (by omega) fits
  obtain ⟨low', high', done, -⟩ := writeBlock_spec o
    { ctx with low := low, high := high, buffer := h₃ } h₃.1 n (by have := h₃.2; omega)
  have pads : fillbuf.take (p - ctx.buflen) ++ (hi ++ lo) = padding message.length := by
    have rest : message.length % 64 = ctx.buflen % 64 := by
      obtain ⟨whole, ⟨k, blocks⟩, rfl, -⟩ := stands
      rw [List.length_append, blocks, List.length_take]
      omega
    have one : p - ctx.buflen = zeros message.length + 1 := by
      simp only [zeros, p]
      split <;> omega
    rw [field, one, fillbuf, List.take_succ_cons, List.take_replicate, padding,
      Nat.min_eq_left (by simp only [zeros]; omega), List.cons_append]
  rw [ends, pads] at block
  simp only [block, stands.finish (by omega : 0 < 64)] at done
  have room : p - ctx.buflen ≤ fillbuf.length := by
    simp only [fillbuf, List.length_cons, List.length_replicate]
    omega
  simp only [result, offHigh, offLow, processed, Option.bind_eq_bind]
  rw [first, Option.bind_some, second, Option.bind_some, if_pos room, third, Option.bind_some,
    done, Option.bind_some, read_spec, digest]

/-- The digest of a context that is initialised and written to is the secure hash of
all that was written, on machines of either byte order: whatever the buffer of the
context held before, however the bytes were cut into buffers, and wherever these
were in memory. No copy leaves the context's buffer, and no block is read past the
end of an object. -/
theorem digestOf_eq (o : ByteOrder) (buffer : Buffer) (buffers : List (Nat × List UInt8)) :
    digestOf o buffer buffers = some (digest (buffers.map Prod.snd).flatten) := by
  obtain ⟨ctx, done, written⟩ := writes_spec o buffers (written_init buffer)
  rw [List.nil_append] at written
  rw [digestOf, done, Option.bind_eq_bind, Option.bind_some, result_spec o written]

end NetifyAgent.Sha1
