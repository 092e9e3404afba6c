import Mathlib.Order.Interval.Finset.Nat
import NetifyAgent.Dns
import NetifyAgent.Lib.Loops

/-! When the loop over the labels of an mDNS pointer record ends. The output
index grows with every label but the empty ones in front, and empty labels are
only read behind a compression pointer. So what can keep the loop going is a
chain of pointers that lead to zero bytes, each pointer behind the zero byte of
the one before. -/
namespace NetifyAgent.MdnsName
open NetifyAgent.Bytes NetifyAgent.Loops StateTransition Relation Dns

/-- One iteration of the loop over the labels: where it reads, where it writes,
and the flow. -/
def nameStep (pkt : Memory) (pktLen : Nat) : Nat × Nat × Det → Option (Nat × Nat × Det)
  | (p, i, d) =>
    if pkt p ≠ 0 ∧ p < pktLen ∧ i < Layout.hostname - 1 then
      let p := follow pkt p
      let dot := separate i d
      some (copyLabel pkt pktLen (pkt p).toNat (p + 1) dot.1 dot.2)
    else none

/-- Follows a pointer to a zero byte, and goes behind that byte. -/
def hop (pkt : Memory) (pktLen p : Nat) : Option Nat :=
  if p < pktLen ∧ (pkt p).toNat / 64 = 3 ∧ pkt (follow pkt p) = 0 then some (follow pkt p + 1)
  else none

section
variable {pkt : Memory} {pktLen p q i j : Nat} {d e : Det}

theorem copyName_succ (fuel : Nat) : copyName pkt pktLen (fuel + 1) p i d =
    (nameStep pkt pktLen (p, i, d)).elim d
      fun s => copyName pkt pktLen fuel s.1 s.2.1 s.2.2 := by
  simp only [copyName, nameStep]
  split <;> rfl

/-- With enough fuel the loop returns what it ends with. -/
theorem copyName_of_ends {s last : Nat × Nat × Det}
    (ended : last ∈ eval (nameStep pkt pktLen) s) :
    ∃ enough, ∀ more, copyName pkt pktLen (enough + more) s.1 s.2.1 s.2.2 = last.2.2 := by
  refine evalInduction ended fun s ended ih => ?_
  cases taken : nameStep pkt pktLen s with
  | none =>
    refine ⟨1, fun more => ?_⟩
    rw [Nat.add_comm, copyName_succ, taken, (eval_maximal (mem_eval.mpr ⟨.refl, taken⟩)).mp
      (mem_eval.mp ended).1]
    rfl
  | some t =>
    obtain ⟨enough, returns⟩ := ih t taken
    refine ⟨enough + 1, fun more => ?_⟩
    rw [Nat.add_right_comm, copyName_succ, taken]
    exact returns more

/-- A label moves both positions on by what is left of it, of the name and of
the message. -/
theorem copyLabel_positions (pkt : Memory) (pktLen left p i : Nat) (d : Det) :
    (copyLabel pkt pktLen left p i d).1 = p + min left (min (79 - i) (pktLen - p)) ∧
      (copyLabel pkt pktLen left p i d).2.1 = i + min left (min (79 - i) (pktLen - p)) := by
  induction left generalizing p i d with
  | zero => simp [copyLabel]
  | succ left ih =>
    unfold copyLabel
    split
    · rename_i room
      obtain ⟨read, written⟩ := ih (p + 1) (i + 1)
        (d.store .mdns (Layout.mdnsDomainName + i) [.byte (pkt p)])
      simp only [Layout.hostname] at room
      rw [read, written]
      omega
    · rename_i full
      simp only [Layout.hostname] at full
      simp only
      omega

theorem nameStep_some (taken : nameStep pkt pktLen (p, i, d) = some (q, j, e)) :
    (pkt p ≠ 0 ∧ p < pktLen ∧ i < 79) ∧
      copyLabel pkt pktLen (pkt (follow pkt p)).toNat (follow pkt p + 1) (separate i d).1
        (separate i d).2 = (q, j, e) := by
  simp only [nameStep] at taken
  split at taken
  · rename_i going
    exact ⟨going, Option.some.inj taken⟩
  · cases taken

/-- Behind the first label the output index grows with every label. -/
theorem nameStep_grows (begun : i ≠ 0) (taken : nameStep pkt pktLen (p, i, d) = some (q, j, e)) :
    i < j := by
  obtain ⟨-, copied⟩ := nameStep_some taken
  obtain ⟨-, written⟩ := copyLabel_positions pkt pktLen (pkt (follow pkt p)).toNat
    (follow pkt p + 1) (separate i d).1 (separate i d).2
  rw [copied] at written
  unfold separate at written
  rw [if_neg begun] at written
  simp only at written
  omega

theorem ends_begun (begun : i ≠ 0) : (eval (nameStep pkt pktLen) (p, i, d)).Dom := by
  refine ends_of_measure (fun s => s.2.1 ≠ 0) (fun s => 79 - s.2.1) ?_ (p, i, d) begun
  rintro ⟨p, i, d⟩ ⟨q, j, e⟩ begun taken
  obtain ⟨⟨_, _, room⟩, _⟩ := nameStep_some taken
  have grows : i < j := nameStep_grows begun taken
  exact ⟨Nat.ne_of_gt (Nat.zero_lt_of_lt grows), Nat.sub_lt_sub_left room grows⟩

/-- A hop is an iteration that writes nothing. -/
theorem nameStep_hop (hops : hop pkt pktLen p = some q) :
    nameStep pkt pktLen (p, 0, d) = some (q, 0, d) := by
  unfold hop at hops
  split at hops
  · rename_i found
    obtain ⟨inside, pointer, zero⟩ := found
    cases hops
    have nonzero : pkt p ≠ 0 := by
      intro null
      simp [null] at pointer
    simp only [nameStep, separate]
    rw [if_pos ⟨nonzero, inside, by decide⟩, zero]
    rfl
  · cases hops

/-- Any other iteration in front of the first label copies some of it, or leaves
the message. -/
theorem nameStep_of_no_hop (stays : hop pkt pktLen p = none)
    (taken : nameStep pkt pktLen (p, 0, d) = some (q, j, e)) : j ≠ 0 ∨ pktLen ≤ q := by
  obtain ⟨⟨nonzero, inside, -⟩, copied⟩ := nameStep_some taken
  obtain ⟨read, written⟩ := copyLabel_positions pkt pktLen (pkt (follow pkt p)).toNat
    (follow pkt p + 1) (separate 0 d).1 (separate 0 d).2
  rw [copied] at read written
  have label : (pkt (follow pkt p)).toNat ≠ 0 := by
    intro null
    have zero : pkt (follow pkt p) = 0 := UInt8.toNat_inj.mp null
    unfold hop at stays
    by_cases pointer : (pkt p).toNat / 64 = 3
    · rw [if_pos ⟨inside, pointer, zero⟩] at stays
      cases stays
    · unfold follow at zero
      rw [if_neg pointer] at zero
      exact nonzero zero
  simp only [separate, if_true] at read written
  omega

theorem ends_of_no_hop (stays : hop pkt pktLen p = none) :
    (eval (nameStep pkt pktLen) (p, 0, d)).Dom := by
  refine ends_of_next fun ⟨q, j, e⟩ taken => ?_
  rcases nameStep_of_no_hop stays taken with begun | outside
  · exact ends_begun begun
  · apply ends_at
    simp only [nameStep]
    rw [if_neg (by omega)]

/-- In front of the first label the loop goes on as long as the hops do. -/
theorem ends_iff_hops_end : (eval (nameStep pkt pktLen) (p, 0, d)).Dom ↔
    (eval (hop pkt pktLen) p).Dom := by
  constructor
  · intro ends
    obtain ⟨last, ended⟩ := Part.dom_iff_mem.mp ends
    refine evalInduction (C := fun s => ∀ p, s = (p, 0, d) → (eval (hop pkt pktLen) p).Dom) ended
      (fun s _ ih p here => ?_) p rfl
    refine ends_of_next fun q hops => ih (q, 0, d) ?_ q rfl
    rw [here, nameStep_hop hops]
  · intro ends
    obtain ⟨last, ended⟩ := Part.dom_iff_mem.mp ends
    refine evalInduction (C := fun p => (eval (nameStep pkt pktLen) (p, 0, d)).Dom) ended
      fun p _ ih => ?_
    cases hops : hop pkt pktLen p with
    | none => exact ends_of_no_hop hops
    | some q => exact (ends_iff_next (nameStep_hop hops)).mpr (ih q hops)

/-- A pointer holds an offset of fourteen bits. -/
theorem hop_le (hops : hop pkt pktLen p = some q) : q ≤ 16384 := by
  unfold hop at hops
  split at hops
  · rename_i found
    cases hops
    unfold follow
    rw [if_pos found.2.1]
    have high := (pkt (p + 1)).toNat_lt
    omega
  · cases hops

theorem hops_finite : {q | Reaches (hop pkt pktLen) p q}.Finite := by
  refine (Set.finite_Iic (max p 16384 : Nat)).subset fun q reached => ?_
  rcases ReflTransGen.cases_tail reached with rfl | ⟨_, _, hops⟩
  · exact Set.mem_Iic.mpr (Nat.le_max_left q 16384)
  · exact Set.mem_Iic.mpr ((hop_le hops).trans (Nat.le_max_right p 16384))

end

/-- **The end of a name.** The expansion of the name at `rdata` ends exactly if
the pointers to zero bytes that start there never lead back to a position. -/
theorem expansion_ends_iff (pkt : Memory) (pktLen rdata : Nat) (d : Det) :
    (eval (nameStep pkt pktLen) (rdata, 0, d)).Dom ↔
      ∀ p, Reaches (hop pkt pktLen) rdata p → ¬ Reaches₁ (hop pkt pktLen) p p :=
  ends_iff_hops_end.trans (ends_iff_no_return hops_finite)

/-! ## A circle -/

/-- An mDNS answer of one pointer record for the root. Its data, from byte 23, is
a pointer to a zero byte with the same pointer behind it. -/
def circle : List UInt8 :=
  [0, 0, 0x84, 0, 0, 0, 0, 1, 0, 0, 0, 0,
   0, 0, 12, 0, 1, 0, 0, 0, 120, 0, 5, 0xc0, 25, 0, 0xc0, 25]

/-- The expansion of that name never ends. -/
theorem expansion_endless : ¬ (eval (nameStep (circle.getD · 0) 28) (23, 0, ⟨{}, []⟩)).Dom := by
  rw [ends_iff_hops_end]
  intro ends
  have first : hop (circle.getD · 0) 28 23 = some 26 := by decide
  have again : hop (circle.getD · 0) 28 26 = some 26 := by decide
  exact no_return_of_ends ends (ReflTransGen.single first) (TransGen.single again)

end NetifyAgent.MdnsName
