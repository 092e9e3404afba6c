import Mathlib.Algebra.BigOperators.Fin
import Mathlib.Algebra.Order.BigOperators.Group.Finset

/-! Threads that take turns. A weight on the states of one thread adds up over
all of them; what a step of one thread does to the sum is what it does to that
thread. The same sums count what is kept in a row of stores. -/
namespace NetifyAgent.Threads

variable {σ τ : Type} {n m : Nat}

/-- The sum of a weight over all threads. -/
def total (f : σ → Nat) (threads : Fin n → σ) : Nat := ∑ i, f (threads i)

section
variable {f g : σ → Nat} {threads : Fin n → σ} {i : Fin n} {s : σ}

/-- **One step.** Only the thread that moves changes the sum. -/
theorem total_update (f : σ → Nat) (threads : Fin n → σ) (i : Fin n) (s : σ) :
    total f (Function.update threads i s) + f (threads i) = total f threads + f s := by
  unfold total
  have rest : ∑ j ∈ Finset.univ.erase i, f (Function.update threads i s j) =
      ∑ j ∈ Finset.univ.erase i, f (threads j) := by
    refine Finset.sum_congr rfl fun j other => ?_
    rw [Function.update_of_ne (Finset.ne_of_mem_erase other)]
  rw [← Finset.add_sum_erase _ _ (Finset.mem_univ i), rest,
    ← Finset.add_sum_erase Finset.univ (fun j => f (threads j)) (Finset.mem_univ i),
    Function.update_self]
  omega

theorem total_mono (le : ∀ s, f s ≤ g s) : total f threads ≤ total g threads :=
  Finset.sum_le_sum fun i _ => le (threads i)

/-- A thread that counts nothing leaves room for one. -/
theorem total_lt (one : ∀ s, f s ≤ 1) (idle : f (threads i) = 0) : total f threads < n := by
  have moved := total_update (fun s => f s) threads i (threads i)
  unfold total at moved ⊢
  calc ∑ j, f (threads j) < ∑ _j : Fin n, 1 := by
        refine Finset.sum_lt_sum (fun j _ => one (threads j)) ⟨i, Finset.mem_univ i, ?_⟩
        rw [idle]
        exact Nat.one_pos
    _ = n := by simp

/-- Threads that each keep something in a store of their own are no more than
what is kept. -/
theorem total_le_stores {g : τ → Nat} {stores : Fin m → τ} (one : ∀ s, f s ≤ 1)
    (place : Fin n → Fin m) (kept : ∀ i, f (threads i) ≠ 0 → 0 < g (stores (place i)))
    (own : ∀ i j, f (threads i) ≠ 0 → f (threads j) ≠ 0 → place i = place j → i = j) :
    total f threads ≤ total g stores := by
  classical
  let busy := Finset.univ.filter fun i => f (threads i) ≠ 0
  calc total f threads = ∑ i ∈ busy, f (threads i) := (Finset.sum_filter_ne_zero _).symm
    _ ≤ ∑ _i ∈ busy, 1 := Finset.sum_le_sum fun i _ => one (threads i)
    _ = busy.card := by simp
    _ = (busy.image place).card := by
      refine (Finset.card_image_of_injOn fun i here j there same => ?_).symm
      exact own i j (Finset.mem_filter.mp here).2 (Finset.mem_filter.mp there).2 same
    _ = ∑ _b ∈ busy.image place, 1 := by simp
    _ ≤ ∑ b ∈ busy.image place, g (stores b) := by
      refine Finset.sum_le_sum fun b here => ?_
      obtain ⟨i, busy_i, rfl⟩ := Finset.mem_image.mp here
      exact kept i (Finset.mem_filter.mp busy_i).2
    _ ≤ total g stores := Finset.sum_le_sum_of_subset (Finset.subset_univ _)

end

end NetifyAgent.Threads
