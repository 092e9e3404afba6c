import Mathlib.Algebra.Order.Group.Nat
import Mathlib.Data.List.Basic
import Mathlib.Tactic.Ring

/-! Messages that are absorbed a block at a time. A running computation has
absorbed whole blocks of its message and holds the rest back. Where the message
was cut, and when the blocks were absorbed, makes no difference to where it
stands. -/
namespace NetifyAgent.Streaming

variable {σ α : Type*} (block : σ → List α → σ) (size : Nat)

/-- Absorbs the first `n` blocks of a message. -/
def absorbs (s : σ) (message : List α) : Nat → σ
  | 0 => s
  | n + 1 => absorbs (block s (message.take size)) (message.drop size) n

/-- Absorbs the whole blocks of a message. -/
def absorb (s : σ) (message : List α) : σ :=
  absorbs block size s message (message.length / size)

variable {block size}

theorem absorbs_append {n : Nat} {message : List α} (enough : n * size ≤ message.length)
    (s : σ) (rest : List α) :
    absorbs block size s (message ++ rest) n = absorbs block size s message n := by
  induction n generalizing s message with
  | zero => rfl
  | succ n ih =>
    rw [Nat.succ_mul] at enough
    have first : size ≤ message.length := by omega
    have left : n * size ≤ (message.drop size).length := by
      rw [List.length_drop]
      omega
    rw [absorbs, absorbs, List.take_append_of_le_length first,
      List.drop_append_of_le_length first, ih left]

theorem absorbs_add (s : σ) (message : List α) (n k : Nat) :
    absorbs block size s message (n + k) =
      absorbs block size (absorbs block size s message n) (message.drop (n * size)) k := by
  induction n generalizing s message with
  | zero => simp [absorbs]
  | succ n ih =>
    rw [Nat.succ_add, absorbs, absorbs, ih, List.drop_drop, Nat.succ_mul, Nat.add_comm size]

theorem absorb_of_short {message : List α} (short : message.length < size) (s : σ) :
    absorb block size s message = s := by
  rw [absorb, Nat.div_eq_of_lt short, absorbs]

theorem absorb_block {message : List α} (one : message.length = size) (positive : 0 < size)
    (s : σ) : absorb block size s message = block s message := by
  rw [absorb, one, Nat.div_self positive, absorbs, absorbs, List.take_of_length_le one.le]

/-- A message that is cut behind whole blocks is absorbed part by part. -/
theorem absorb_append {whole : List α} (blocks : size ∣ whole.length) (positive : 0 < size)
    (s : σ) (rest : List α) :
    absorb block size s (whole ++ rest) = absorb block size (absorb block size s whole) rest := by
  obtain ⟨n, length⟩ := blocks
  have count : whole.length / size = n := by
    rw [length, Nat.mul_div_cancel_left _ positive]
  have all : n * size = whole.length := by
    rw [length, Nat.mul_comm]
  have total : (whole ++ rest).length / size = n + rest.length / size := by
    rw [List.length_append, length, Nat.mul_add_div positive]
  simp only [absorb]
  rw [total, count, absorbs_add, absorbs_append all.le, all, List.drop_left]

/-! ## Running computations -/

variable (block size)

/-- From `start`, whole blocks of a message are absorbed in the state, and the
rest of it is held back. -/
def Standing (start state : σ) (held message : List α) : Prop :=
  ∃ whole, size ∣ whole.length ∧ message = whole ++ held ∧
    state = absorb block size start whole

variable {block size} {start state : σ} {held message : List α}

theorem Standing.begin : Standing block size start start [] [] :=
  ⟨[], Nat.dvd_zero size, rfl, by simp [absorb, absorbs]⟩

/-- More of the message is held back. -/
theorem Standing.hold (stands : Standing block size start state held message) (more : List α) :
    Standing block size start state (held ++ more) (message ++ more) := by
  obtain ⟨whole, blocks, rfl, absorbed⟩ := stands
  exact ⟨whole, blocks, by simp, absorbed⟩

/-- Whole blocks of what is held back are absorbed. -/
theorem Standing.absorb {first : List α}
    (stands : Standing block size start state (first ++ held) message)
    (blocks : size ∣ first.length) (positive : 0 < size) :
    Standing block size start (Streaming.absorb block size state first) held message := by
  obtain ⟨whole, before, rfl, rfl⟩ := stands
  refine ⟨whole ++ first, ?_, by simp, (absorb_append before positive _ _).symm⟩
  rw [List.length_append]
  exact Nat.dvd_add before blocks

/-- What is absorbed in the end does not depend on what was held back. -/
theorem Standing.finish (stands : Standing block size start state held message)
    (positive : 0 < size) (padding : List α) :
    Streaming.absorb block size state (held ++ padding) =
      Streaming.absorb block size start (message ++ padding) := by
  obtain ⟨whole, blocks, rfl, rfl⟩ := stands
  rw [List.append_assoc, absorb_append blocks positive]

end NetifyAgent.Streaming
