import Mathlib.Data.UInt
import Mathlib.Tactic.IntervalCases
import NetifyAgent.Lib.SecureHash

/-! The digests of flows, connections and addresses are computed by the functions
of `nd-sha1.c`. A context holds back what does not fill a block; where the bytes
come from, how they are aligned and how many of them come at a time makes no
difference to the digest. -/
namespace NetifyAgent.Sha1
open SecureHash Streaming

/-! ## Words in memory -/

/-- `__BYTE_ORDER__` of the machine. -/
inductive ByteOrder where
  | bigEndian
  | littleEndian
  deriving DecidableEq, Repr

/-- The word the machine loads from four bytes. -/
def load (o : ByteOrder) (b₀ b₁ b₂ b₃ : UInt8) : UInt32 :=
  match o with
  | .bigEndian => wordOf b₀ b₁ b₂ b₃
  | .littleEndian => wordOf b₃ b₂ b₁ b₀

/-- `set_uint32`: the bytes the machine stores a word as. -/
def setUint32 (o : ByteOrder) (v : UInt32) : List UInt8 :=
  match o with
  | .bigEndian => bytesOf v
  | .littleEndian => (bytesOf v).reverse

/-- `SWAP`. -/
def swap (o : ByteOrder) (n : UInt32) : UInt32 :=
  match o with
  | .bigEndian => n
  | .littleEndian =>
    (n <<< 24) ||| ((n &&& (0xff00 : UInt32)) <<< 8) ||| ((n >>> 8) &&& (0xff00 : UInt32)) |||
      (n >>> 24)

theorem swap_load (o : ByteOrder) (b₀ b₁ b₂ b₃ : UInt8) :
    swap o (load o b₀ b₁ b₂ b₃) = wordOf b₀ b₁ b₂ b₃ := by
  cases o with
  | bigEndian => rfl
  | littleEndian =>
    simp only [swap, load, wordOf]
    apply UInt32.toBitVec_inj.mp
    apply BitVec.eq_of_getLsbD_eq
    intro i within
    simp
    interval_cases i <;> simp

theorem setUint32_swap (o : ByteOrder) (v : UInt32) : setUint32 o (swap o v) = bytesOf v := by
  cases o with
  | bigEndian => rfl
  | littleEndian =>
    simp only [swap, setUint32, bytesOf, List.reverse_cons, List.reverse_nil, List.nil_append,
      List.cons_append, List.cons.injEq, and_true]
    refine ⟨?_, ?_, ?_, ?_⟩ <;>
    · apply UInt8.toBitVec_inj.mp
      apply BitVec.eq_of_getLsbD_eq
      intro i within
      simp
      try interval_cases i <;> simp

/-! ## The rounds -/

def rol (x n : UInt32) : UInt32 := (x <<< n) ||| (x >>> (32 - n))

def F1 (B C D : UInt32) : UInt32 := D ^^^ (B &&& (C ^^^ D))
def F2 (B C D : UInt32) : UInt32 := B ^^^ C ^^^ D
def F3 (B C D : UInt32) : UInt32 := (B &&& C) ||| (D &&& (B ||| C))
def F4 (B C D : UInt32) : UInt32 := B ^^^ C ^^^ D

def K1 : UInt32 := 0x5a827999
def K2 : UInt32 := 0x6ed9eba1
def K3 : UInt32 := 0x8f1bbcdc
def K4 : UInt32 := 0xca62c1d6

/-- The sixteen words `x`. -/
abbrev Window := Vector UInt32 16

/-- `M(I)`: the next word of the schedule. It takes the place of the oldest. -/
def M (x : Window) (I : Nat) : UInt32 × Window :=
  let tm := x[I % 16] ^^^ x[(I - 14) % 16] ^^^ x[(I - 8) % 16] ^^^ x[(I - 3) % 16]
  (rol tm 1, x.set (I % 16) (rol tm 1))

/-- The last argument of line `t`: a word of the block, or `M(t)`. -/
def word (x : Window) (t : Nat) : UInt32 × Window := if t < 16 then (x[t % 16], x) else M x t

/-- Before line `t` the window holds the last sixteen words of the schedule that
are known. -/
def Window.Holds (block : List UInt8) (t : Nat) (x : Window) : Prop :=
  ∀ i, i < max 16 t → max 16 t ≤ i + 16 → x[i % 16] = w block i

/-- `R`: the new `E` and the new `B`. -/
def R (F : UInt32 → UInt32 → UInt32 → UInt32) (K m A B C D E : UInt32) : UInt32 × UInt32 :=
  (E + (rol A 5 + F B C D + K + m), rol B 30)

/-- Five lines from line `t` on, by which the registers have gone round once. -/
def five (F : UInt32 → UInt32 → UInt32 → UInt32) (K : UInt32) (t : Nat) :
    Chaining × Window → Chaining × Window
  | (⟨a, b, c, d, e⟩, x) =>
    let (m, x) := word x t
    let (e, b) := R F K m a b c d e
    let (m, x) := word x (t + 1)
    let (d, a) := R F K m e a b c d
    let (m, x) := word x (t + 2)
    let (c, e) := R F K m d e a b c
    let (m, x) := word x (t + 3)
    let (b, d) := R F K m c d e a b
    let (m, x) := word x (t + 4)
    let (a, c) := R F K m b c d e a
    (⟨a, b, c, d, e⟩, x)

/-- The twenty lines with one function and one constant. -/
def twenty (F : UInt32 → UInt32 → UInt32 → UInt32) (K : UInt32) (t : Nat)
    (s : Chaining × Window) : Chaining × Window :=
  five F K (t + 15) (five F K (t + 10) (five F K (t + 5) (five F K t s)))

/-- The eighty lines. -/
def lines (s : Chaining × Window) : Chaining × Window :=
  twenty F4 K4 60 (twenty F3 K3 40 (twenty F2 K2 20 (twenty F1 K1 0 s)))

/-- One turn of the loop of `sha1_write_block`. -/
def turn (o : ByteOrder) (s : Chaining) (words : List UInt8) : Chaining :=
  let x : Window := Vector.ofFn fun t => swap o (load o (words.getD (4 * t) 0)
    (words.getD (4 * t + 1) 0) (words.getD (4 * t + 2) 0) (words.getD (4 * t + 3) 0))
  let (r, _) := lines (s, x)
  ⟨s.a + r.a, s.b + r.b, s.c + r.c, s.d + r.d, s.e + r.e⟩

/-- The turns of that loop. It is `none` where it reads past the end of the
object that `words` is left of. -/
def turns (o : ByteOrder) : Nat → Chaining → List UInt8 → Option Chaining
  | 0, s, _ => some s
  | n + 1, s, words =>
    if words.length < 64 then none else turns o n (turn o s words) (words.drop 64)

/-! ## Contexts -/

/-- The thirty-two words of `ctx->buffer`, byte for byte. -/
abbrev Buffer := { bytes : List UInt8 // bytes.length = 128 }

/-- `memcpy` to a place in the buffer, `none` where it would write past the end. -/
def memcpy (buffer : Buffer) (off : Nat) (bytes : List UInt8) : Option Buffer :=
  if fits : off + bytes.length ≤ 128 then
    some ⟨buffer.1.take off ++ bytes ++ buffer.1.drop (off + bytes.length), by
      have := buffer.2
      simp only [List.length_append, List.length_take, List.length_drop]
      omega⟩
  else none

/-- `n` bytes of the buffer, `none` where they are not in it. -/
def Buffer.bytes (buffer : Buffer) (off n : Nat) : Option (List UInt8) :=
  if off + n ≤ 128 then some ((buffer.1.drop off).take n) else none

/-- `sha1`. -/
structure Context where
  /-- `A` to `E`. -/
  words : Chaining
  /-- `total[0]`. -/
  low : UInt32
  /-- `total[1]`. -/
  high : UInt32
  buflen : Nat
  buffer : Buffer

/-- `sha1_init`, which leaves the buffer as it finds it. -/
def init (buffer : Buffer) : Context where
  words := ⟨0x67452301, 0xefcdab89, 0x98badcfe, 0x10325476, 0xc3d2e1f0⟩
  low := 0
  high := 0
  buflen := 0
  buffer := buffer

/-- `sha1_write_block` of the first `len` bytes of what is left of an object. -/
def writeBlock (o : ByteOrder) (ctx : Context) (buffer : List UInt8) (len : Nat) :
    Option Context :=
  let nwords := len / 4
  let lolen := UInt32.ofNat len
  let low := ctx.low + lolen
  let high := ctx.high + (UInt32.ofNat (len >>> 31 >>> 1) + if low < lolen then 1 else 0)
  -- `words` goes on by sixteen until it is not below `endp`
  (turns o ((nwords + 15) / 16) ctx.words buffer).map fun words =>
    { ctx with words := words, low := low, high := high }

/-- The first `whole` bytes of the buffer are processed, and the `rest` behind them
moves to its front. -/
def drain (o : ByteOrder) (ctx : Context) (whole rest : Nat) : Option Context := do
  let ctx ← writeBlock o ctx ctx.buffer.1 whole
  let left ← ctx.buffer.bytes whole rest
  let held ← memcpy ctx.buffer 0 left
  some { ctx with buffer := held, buflen := rest }

/-- The part of `sha1_write` for a context that holds bytes back. The address and
the bytes that are left of the caller's buffer go on to the other parts. -/
def topUp (o : ByteOrder) (ctx : Context) (address : Nat) (buffer : List UInt8) :
    Option (Context × Nat × List UInt8) := do
  let leftOver := ctx.buflen
  let add := if 128 - leftOver > buffer.length then buffer.length else 128 - leftOver
  let held ← memcpy ctx.buffer leftOver (buffer.take add)
  let buflen := leftOver + add
  let ctx := { ctx with buffer := held, buflen := buflen }
  let ctx ← if buflen > 64 then drain o ctx (buflen / 64 * 64) (buflen % 64) else some ctx
  some (ctx, address + add, buffer.drop add)

/-- The blocks of an unaligned buffer, which are copied to be processed. -/
def bounce (o : ByteOrder) (ctx : Context) (buffer : List UInt8) :
    Option (Context × List UInt8) :=
  if 64 < buffer.length then do
    let held ← memcpy ctx.buffer 0 (buffer.take 64)
    let ctx ← writeBlock o { ctx with buffer := held } held.1 64
    bounce o ctx (buffer.drop 64)
  else some (ctx, buffer)
termination_by buffer.length
decreasing_by
  rw [List.length_drop]
  omega

/-- The part of `sha1_write` for the complete blocks. -/
def completeBlocks (o : ByteOrder) (ctx : Context) (address : Nat) (buffer : List UInt8) :
    Option (Context × List UInt8) :=
  if 64 ≤ buffer.length then
    -- `UNALIGNED_P`
    if address % 4 ≠ 0 then bounce o ctx buffer
    else do
      let whole := buffer.length / 64 * 64
      let ctx ← writeBlock o ctx buffer whole
      some (ctx, buffer.drop whole)
  else some (ctx, buffer)

/-- The part of `sha1_write` that moves the remaining bytes. -/
def moveRemaining (o : ByteOrder) (ctx : Context) (buffer : List UInt8) : Option Context :=
  if 0 < buffer.length then do
    let held ← memcpy ctx.buffer ctx.buflen buffer
    let ctx := { ctx with buffer := held }
    let leftOver := ctx.buflen + buffer.length
    if 64 ≤ leftOver then drain o ctx 64 (leftOver - 64) else some { ctx with buflen := leftOver }
  else some ctx

/-- `sha1_write` of a buffer at an address. -/
def write (o : ByteOrder) (ctx : Context) (address : Nat) (buffer : List UInt8) :
    Option Context := do
  let toppedUp := if ctx.buflen ≠ 0 then topUp o ctx address buffer
    else some (ctx, address, buffer)
  let (ctx, address, buffer) ← toppedUp
  let (ctx, buffer) ← completeBlocks o ctx address buffer
  moveRemaining o ctx buffer

/-- `sha1_read`. -/
def read (o : ByteOrder) (ctx : Context) : List UInt8 :=
  setUint32 o (swap o ctx.words.a) ++ setUint32 o (swap o ctx.words.b) ++
    setUint32 o (swap o ctx.words.c) ++ setUint32 o (swap o ctx.words.d) ++
    setUint32 o (swap o ctx.words.e)

/-- `fillbuf`. -/
def fillbuf : List UInt8 := 0x80 :: List.replicate 63 0

/-- `sha1_result`. -/
def result (o : ByteOrder) (ctx : Context) : Option (List UInt8) := do
  let bytes := UInt32.ofNat ctx.buflen
  let size := if ctx.buflen < 56 then 64 / 4 else 64 * 2 / 4
  let low := ctx.low + bytes
  let high := if low < bytes then ctx.high + 1 else ctx.high
  let held ← memcpy ctx.buffer ((size - 2) * 4)
    (setUint32 o (swap o ((high <<< 3) ||| (low >>> 29))))
  let held ← memcpy held ((size - 1) * 4) (setUint32 o (swap o (low <<< 3)))
  let fill := (size - 2) * 4 - ctx.buflen
  let held ← if fill ≤ fillbuf.length then memcpy held ctx.buflen (fillbuf.take fill) else none
  let ctx ← writeBlock o { ctx with low := low, high := high, buffer := held } held.1 (size * 4)
  some (read o ctx)

/-- `sha1_write` of one buffer after the other, each at its address. -/
def writes (o : ByteOrder) (ctx : Context) : List (Nat × List UInt8) → Option Context
  | [] => some ctx
  | (address, buffer) :: rest => do
    let ctx ← write o ctx address buffer
    writes o ctx rest

/-- A digest is computed from a context that is initialised, written to, and
asked for its result. -/
def digestOf (o : ByteOrder) (buffer : Buffer) (buffers : List (Nat × List UInt8)) :
    Option (List UInt8) := do
  let ctx ← writes o (init buffer) buffers
  result o ctx

end NetifyAgent.Sha1
