import Mathlib.Algebra.Group.Nat.Even
import Mathlib.Data.Fintype.Basic
import Mathlib.Logic.Function.Basic
import NetifyAgent.Json
import NetifyAgent.Lib.Pairs
import NetifyAgent.Lib.Runs

/-! The payload queue of a sink. A processor dispatches the header of a document and then
its body, and takes the locks of the manager and of the queue for each of them alone; the
sink pulls what is queued into a queue of its own and drops the oldest payloads one by one
while that holds too many bytes. -/
namespace NetifyAgent.SinkQueue
open Pairs Runs

/-! ## Payloads -/

/-- How JSON documents are written, and whether the agent runs in debug mode. -/
structure PayloadFormat where
  /-- `json::to_msgpack`. -/
  toMsgpack : Json → List UInt8
  /-- `nd_json_to_string`, with its argument `pretty`. -/
  jsonToString : Json → Bool → List UInt8
  /-- `ndGC_DEBUG`. -/
  debug : Bool

inductive Part where
  | header
  | body
  deriving DecidableEq, Repr

/-- `ndPluginSinkPayload`, and what it is a part of. -/
structure SinkPayload where
  data : List UInt8
  /-- The number of the call of `DispatchSinkPayload` that has made it. -/
  call : Nat
  part : Part
  deriving DecidableEq, Repr

def SinkPayload.length (p : SinkPayload) : Nat := p.data.length

/-- `jheader`. -/
def jheader (length : Nat) : Json := .object [("length".toList, .integer length)]

/-- A header as the two formats write it. -/
def headerData (format : PayloadFormat) (msgpack : Bool) (length : Nat) : List UInt8 :=
  if msgpack then format.toMsgpack (jheader length)
  else format.jsonToString (jheader length) false ++ [10]

/-- A body as the two formats write it behind a header. -/
def bodyData (format : PayloadFormat) (msgpack : Bool) (j : Json) : List UInt8 :=
  if msgpack then format.toMsgpack j else format.jsonToString j format.debug ++ [10]

/-! ## The queue -/

/-- The bytes of some payloads. -/
def total : List SinkPayload → Nat
  | [] => 0
  | p :: rest => p.length + total rest

/-- `while (plq_private.size() && plq_size > plq_size_max)`. -/
def makeRoom (sizeMax : Nat) : List SinkPayload → Nat → List SinkPayload × Nat
  | [], size => ([], size)
  | p :: rest, size =>
    if sizeMax < size then makeRoom sizeMax rest (size - p.length) else (p :: rest, size)

/-- `do ... while (plq_public.size() > 0)`. -/
def pullLoop (sizeMax : Nat) : List SinkPayload → List SinkPayload → Nat →
    List SinkPayload × Nat
  | [], plqPrivate, size => (plqPrivate, size)
  | p :: rest, plqPrivate, size =>
    let room := makeRoom sizeMax plqPrivate size
    pullLoop sizeMax rest (room.1 ++ [p]) (room.2 + p.length)

/-- A sink, the processors that dispatch to it, and the payloads it has popped. -/
structure SinkSystem (τ : Type) where
  plqPublic : List SinkPayload := []
  plqPrivate : List SinkPayload := []
  plqSize : Nat := 0
  popped : List SinkPayload := []
  calls : Nat := 0
  /-- The body whose header a processor has dispatched. -/
  waiting : τ → Option SinkPayload := fun _ => none

/-- The steps of the threads. -/
inductive Action (τ : Type) where
  /-- A processor makes the payloads of a document and queues the header. -/
  | queueHeader (t : τ) (j : Json) (msgpack : Bool)
  /-- The processor queues the body. -/
  | queueBody (t : τ)
  /-- The sink calls `PullPayloadQueue`. -/
  | pull
  /-- The sink calls `PopPayloadQueue`. -/
  | pop

section
variable {τ : Type} [DecidableEq τ]

/-- `PullPayloadQueue`. -/
def SinkSystem.pullPayloadQueue (sizeMax : Nat) (s : SinkSystem τ) : SinkSystem τ :=
  let pulled := pullLoop sizeMax s.plqPublic s.plqPrivate s.plqSize
  { s with plqPublic := [], plqPrivate := pulled.1, plqSize := pulled.2 }

/-- `PopPayloadQueue`. -/
def SinkSystem.popPayloadQueue (s : SinkSystem τ) : SinkSystem τ :=
  match s.plqPrivate with
  | [] => s
  | p :: rest =>
    { s with plqPrivate := rest, plqSize := s.plqSize - p.length, popped := s.popped ++ [p] }

def step (format : PayloadFormat) (sizeMax : Nat) (s : SinkSystem τ) :
    Action τ → Option (SinkSystem τ)
  | .queueHeader t j msgpack =>
    if s.waiting t = none then
      let output := bodyData format msgpack j
      let header := headerData format msgpack output.length
      some { s with
        plqPublic := s.plqPublic ++ [⟨header, s.calls, .header⟩]
        calls := s.calls + 1
        waiting := Function.update s.waiting t (some ⟨output, s.calls, .body⟩) }
    else none
  | .queueBody t =>
    match s.waiting t with
    | some body => some { s with
        plqPublic := s.plqPublic ++ [body]
        waiting := Function.update s.waiting t none }
    | none => none
  | .pull => some (s.pullPayloadQueue sizeMax)
  | .pop => some s.popPayloadQueue

end

/-! ## Framing -/

/-- A header and its own body, whose length it announces. -/
structure Framing (format : PayloadFormat) (q : SinkPayload × SinkPayload) : Prop where
  header : q.1.part = .header
  body : q.2.part = .body
  own : q.1.call = q.2.call
  announces : ∃ msgpack, q.1.data = headerData format msgpack q.2.length

/-- What is popped are headers with their bodies, and a header that is popped last is
followed by its body. -/
def Framed {τ : Type} (format : PayloadFormat) (s : SinkSystem τ) : Prop :=
  ∃ pairs, (∀ q ∈ pairs, Framing format q) ∧ (s.popped = row pairs ∨
    ∃ q, Framing format q ∧ s.popped = row pairs ++ [q.1] ∧
      ((s.plqPrivate ++ s.plqPublic).head? = some q.2 ∨
        s.plqPrivate ++ s.plqPublic = [] ∧ ∃ t, s.waiting t = some q.2))

/-- The number of oldest payloads that have to go to leave no more bytes than allowed. -/
def surplus (sizeMax : Nat) : List SinkPayload → Nat
  | [] => 0
  | p :: rest => if sizeMax < total (p :: rest) then surplus sizeMax rest + 1 else 0

/-- The payloads that have to go before the last one is pulled. -/
def overflow {τ : Type} (sizeMax : Nat) (s : SinkSystem τ) : Nat :=
  if s.plqPublic = [] then 0 else surplus sizeMax (s.plqPrivate ++ s.plqPublic.dropLast)

/-- No header is queued while a body is to follow, and a pull drops none or whole pairs. -/
def Unsplit {τ : Type} (sizeMax : Nat) (s : SinkSystem τ) : Action τ → Prop
  | .queueHeader _ _ _ => ∀ t, s.waiting t = none
  | .pull => overflow sizeMax s = 0 ∨ Even (overflow sizeMax s) ∧ Even s.popped.length
  | _ => True

/-! ## Pulling -/

variable {sizeMax : Nat}

@[simp] theorem total_nil : total [] = 0 := rfl

@[simp] theorem total_cons (p : SinkPayload) (rest : List SinkPayload) :
    total (p :: rest) = p.length + total rest := rfl

@[simp] theorem total_append (l m : List SinkPayload) : total (l ++ m) = total l + total m := by
  induction l with
  | nil => rw [List.nil_append, total_nil, Nat.zero_add]
  | cons p rest ih => rw [List.cons_append, total_cons, total_cons, ih, Nat.add_assoc]

theorem surplus_le (sizeMax : Nat) (l : List SinkPayload) : surplus sizeMax l ≤ l.length := by
  induction l with
  | nil => exact Nat.le_refl 0
  | cons p rest ih =>
    unfold surplus
    split
    · exact Nat.succ_le_succ ih
    · exact Nat.zero_le _

/-- What has to go for a queue has to go for a longer one. -/
theorem surplus_append (sizeMax : Nat) (l m : List SinkPayload) : surplus sizeMax (l ++ m) =
    surplus sizeMax l + surplus sizeMax (l.drop (surplus sizeMax l) ++ m) := by
  induction l with
  | nil => exact (Nat.zero_add _).symm
  | cons p rest ih =>
    by_cases more : sizeMax < total (p :: rest)
    · have longer : sizeMax < total (p :: (rest ++ m)) := by
        rw [total_cons] at more ⊢
        rw [total_append]
        omega
      rw [List.cons_append, surplus, if_pos longer, surplus, if_pos more, List.drop_succ_cons, ih]
      omega
    · have none : surplus sizeMax (p :: rest) = 0 := if_neg more
      rw [none, List.drop_zero, Nat.zero_add]

theorem makeRoom_eq (l : List SinkPayload) : makeRoom sizeMax l (total l) =
    (l.drop (surplus sizeMax l), total (l.drop (surplus sizeMax l))) := by
  induction l with
  | nil => rfl
  | cons p rest ih =>
    unfold makeRoom surplus
    split
    · rw [List.drop_succ_cons, ← ih, total_cons, Nat.add_sub_cancel_left]
    · rfl

/-- **A pull** drops the oldest payloads of both queues. -/
theorem pullLoop_eq (waiting pulled : List SinkPayload) (some : pulled ≠ []) :
    pullLoop sizeMax pulled waiting (total waiting) =
      ((waiting ++ pulled).drop (surplus sizeMax (waiting ++ pulled.dropLast)),
        total ((waiting ++ pulled).drop (surplus sizeMax (waiting ++ pulled.dropLast)))) := by
  induction pulled generalizing waiting with
  | nil => exact absurd rfl some
  | cons p rest ih =>
    have le := surplus_le sizeMax waiting
    have kept : (waiting ++ p :: rest).drop (surplus sizeMax waiting) =
        waiting.drop (surplus sizeMax waiting) ++ [p] ++ rest := by
      rw [List.drop_append_of_le_length le]
      simp
    unfold pullLoop
    rw [makeRoom_eq]
    simp only
    have size : total (waiting.drop (surplus sizeMax waiting)) + p.length =
        total (waiting.drop (surplus sizeMax waiting) ++ [p]) := by simp
    rw [size]
    cases rest with
    | nil =>
      rw [pullLoop, List.dropLast_singleton, List.append_nil, kept, List.append_nil]
    | cons p' rest =>
      have split : waiting ++ (p :: p' :: rest).dropLast =
          waiting ++ (p :: (p' :: rest).dropLast) := rfl
      have more := surplus_append sizeMax waiting (p :: (p' :: rest).dropLast)
      rw [ih _ (List.cons_ne_nil _ _), split, more, ← List.drop_drop, kept]
      simp

/-! ## Runs -/

section
variable {τ : Type} [DecidableEq τ] {format : PayloadFormat} {s t : SinkSystem τ}

/-- The body that is to follow, if one is. -/
def Follows (s : SinkSystem τ) (behind : List SinkPayload) : Prop :=
  (behind = [] ∧ ∀ t, s.waiting t = none) ∨
    ∃ t body, behind = [body] ∧ s.waiting t = some body ∧ ∀ t', t' ≠ t → s.waiting t' = none

/-- From the payload popped first to the body that is to follow, headers and bodies stand
in a row. -/
structure InRow (format : PayloadFormat) (s : SinkSystem τ) (behind : List SinkPayload)
    (pairs : List (SinkPayload × SinkPayload)) : Prop where
  follows : Follows s behind
  framing : ∀ q ∈ pairs, Framing format q
  row : row pairs = s.popped ++ (s.plqPrivate ++ s.plqPublic ++ behind)
  size : s.plqSize = total s.plqPrivate

omit [DecidableEq τ] in
/-- A pull leaves the private queue as it is but for what has to go. -/
theorem pullPayloadQueue_eq (size : s.plqSize = total s.plqPrivate) :
    s.pullPayloadQueue sizeMax =
      { s with
        plqPublic := []
        plqPrivate := (s.plqPrivate ++ s.plqPublic).drop (overflow sizeMax s)
        plqSize := total ((s.plqPrivate ++ s.plqPublic).drop (overflow sizeMax s)) } := by
  unfold SinkSystem.pullPayloadQueue overflow
  rw [size]
  by_cases none : s.plqPublic = []
  · rw [if_pos none, none, pullLoop, List.append_nil, List.drop_zero]
  · rw [if_neg none, pullLoop_eq _ _ none]

omit [DecidableEq τ] in
theorem overflow_le : overflow sizeMax s ≤ (s.plqPrivate ++ s.plqPublic).length := by
  unfold overflow
  split
  · exact Nat.zero_le _
  · refine (surplus_le _ _).trans ?_
    simp only [List.length_append, List.length_dropLast]
    omega

omit [DecidableEq τ] in
/-- What has to go is taken off the row in whole pairs. -/
theorem inRow_pull {behind : List SinkPayload} {pairs : List (SinkPayload × SinkPayload)}
    (inRow : InRow format s behind pairs) (unsplit : Unsplit sizeMax s .pull) :
    ∃ pairs, InRow format (s.pullPayloadQueue sizeMax) behind pairs := by
  rw [pullPayloadQueue_eq inRow.size]
  rcases unsplit with none | ⟨⟨half, even⟩, ⟨popped, whole⟩⟩
  · rw [none, List.drop_zero]
    refine ⟨pairs, inRow.follows, inRow.framing, ?_, rfl⟩
    simpa using inRow.row
  · rcases row_eq_append inRow.row with ⟨first, last, rfl, before, after⟩ |
      ⟨first, q, last, -, before, -⟩
    · refine ⟨first ++ last.drop half, inRow.follows, fun q member => ?_, ?_, rfl⟩
      · rcases List.mem_append.mp member with left | right
        · exact inRow.framing q (List.mem_append_left _ left)
        · exact inRow.framing q (List.mem_append_right _ (List.mem_of_mem_drop right))
      · have double : overflow sizeMax s = 2 * half := by omega
        have le : overflow sizeMax s ≤ (s.plqPrivate ++ s.plqPublic).length := overflow_le
        rw [row_append, ← drop_row, ← after, ← before, ← double,
          List.drop_append_of_le_length le]
        simp
    · have odd := congrArg List.length before
      simp only [List.length_append, length_row, List.length_singleton] at odd
      omega

/-- **One step** keeps the row. -/
theorem inRow_step {action : Action τ} (taken : step format sizeMax s action = some t)
    (unsplit : Unsplit sizeMax s action) (before : ∃ behind pairs, InRow format s behind pairs) :
    ∃ behind pairs, InRow format t behind pairs := by
  obtain ⟨behind, pairs, inRow⟩ := before
  cases action with
  | queueHeader t j msgpack =>
    have idle : ∀ t, s.waiting t = none := unsplit
    rw [step, if_pos (idle t)] at taken
    obtain rfl := Option.some.inj taken
    obtain ⟨rfl, -⟩ | ⟨t', body, -, waits, -⟩ := inRow.follows
    · refine ⟨[⟨bodyData format msgpack j, s.calls, .body⟩],
        pairs ++ [(⟨headerData format msgpack (bodyData format msgpack j).length, s.calls,
          .header⟩, ⟨bodyData format msgpack j, s.calls, .body⟩)], ?_, ?_, ?_, inRow.size⟩
      · exact .inr ⟨t, _, rfl, Function.update_self .., fun t' other =>
          (Function.update_of_ne other ..).trans (idle t')⟩
      · intro q member
        rcases List.mem_append.mp member with left | right
        · exact inRow.framing q left
        · obtain rfl := List.mem_singleton.mp right
          exact ⟨rfl, rfl, rfl, msgpack, rfl⟩
      · rw [row_append, inRow.row]
        simp
    · rw [idle t'] at waits
      cases waits
  | queueBody t =>
    rw [step] at taken
    obtain ⟨-, idle⟩ | ⟨t', body, rfl, waits, others⟩ := inRow.follows
    · rw [idle t] at taken
      cases taken
    · by_cases same : t = t'
      · subst same
        rw [waits] at taken
        obtain rfl := Option.some.inj taken
        refine ⟨[], pairs, .inl ⟨rfl, fun t' => ?_⟩, inRow.framing, ?_, inRow.size⟩
        · by_cases same : t' = t
          · rw [same]
            exact Function.update_self ..
          · exact (Function.update_of_ne same ..).trans (others t' same)
        · rw [inRow.row]
          simp
      · rw [others t same] at taken
        cases taken
  | pull =>
    obtain rfl := Option.some.inj taken
    obtain ⟨pairs', inRow'⟩ := inRow_pull inRow unsplit
    exact ⟨behind, pairs', inRow'⟩
  | pop =>
    obtain rfl := Option.some.inj taken
    refine ⟨behind, pairs, ?_⟩
    unfold SinkSystem.popPayloadQueue
    cases queue : s.plqPrivate with
    | nil => exact inRow
    | cons p rest =>
      refine ⟨inRow.follows, inRow.framing, ?_, ?_⟩
      · rw [inRow.row, queue]
        simp
      · simp only
        rw [inRow.size, queue, total_cons, Nat.add_sub_cancel_left]

/-- **Framing.** As long as no header is queued while a body is to follow and pulls drop
whole pairs, headers are popped with their bodies. -/
theorem framed_reached (reached : Reaches (step format sizeMax) (Unsplit sizeMax) {} s) :
    Framed format s := by
  have row : ∃ behind pairs, InRow format s behind pairs := by
    refine reached.invariant (I := fun s => ∃ behind pairs, InRow format s behind pairs) ?_
      fun s action t before taken unsplit => inRow_step taken unsplit before
    exact ⟨[], [], .inl ⟨rfl, fun _ => rfl⟩, (by rintro q ⟨⟩), rfl, rfl⟩
  obtain ⟨behind, pairs, inRow⟩ := row
  rcases row_eq_append inRow.row with ⟨first, last, rfl, popped, -⟩ |
    ⟨first, q, last, rfl, popped, rest⟩
  · exact ⟨first, fun q member => inRow.framing q (List.mem_append_left _ member), .inl popped⟩
  · refine ⟨first, fun q member => inRow.framing q (List.mem_append_left _ member),
      .inr ⟨q, inRow.framing q (by simp), popped, ?_⟩⟩
    by_cases empty : s.plqPrivate ++ s.plqPublic = []
    · refine .inr ⟨empty, ?_⟩
      rw [empty, List.nil_append] at rest
      obtain ⟨rfl, -⟩ | ⟨t, body, rfl, waits, -⟩ := inRow.follows
      · cases rest
      · obtain ⟨rfl, -⟩ := List.cons.inj rest
        exact ⟨t, waits⟩
    · obtain ⟨p, more, queue⟩ := List.exists_cons_of_ne_nil empty
      rw [queue] at rest ⊢
      exact .inl (congrArg some (List.cons.inj rest).1)

end

/-! ## Interleavings -/

instance {τ : Type} [Fintype τ] (sizeMax : Nat) :
    DecidableRel (Unsplit sizeMax : SinkSystem τ → Action τ → Prop)
  | s, .queueHeader _ _ _ => inferInstanceAs (Decidable (∀ t, s.waiting t = none))
  | s, .pull => inferInstanceAs (Decidable (overflow sizeMax s = 0 ∨
      Even (overflow sizeMax s) ∧ Even s.popped.length))
  | _, .queueBody _ => .isTrue trivial
  | _, .pop => .isTrue trivial

/-- The text of `null` and of a header. -/
def plainText : Json → List UInt8
  | .object [(_, .integer n)] =>
    [123, 34, 108, 101, 110, 103, 116, 104, 34, 58] ++
      (Nat.toDigits 10 n.toNat).map (fun c => UInt8.ofNat c.toNat) ++ [125]
  | _ => [110, 117, 108, 108]

/-- JSON documents that are written as texts. -/
def plainFormat : PayloadFormat where
  toMsgpack _ := []
  jsonToString j _ := plainText j
  debug := false

/-- `_ND_PLQ_DEFAULT_MAX_SIZE`. -/
def plqDefaultMaxSize : Nat := 2097152

/-- What stands in a queue. -/
def parts (payloads : List SinkPayload) : List (Nat × Part) :=
  payloads.map fun p => (p.call, p.part)

/-- Documents of two processors one behind the other. -/
theorem apart_framed : ∃ s : SinkSystem (Fin 2),
    Reaches (step plainFormat plqDefaultMaxSize) (Unsplit plqDefaultMaxSize) {} s ∧
      parts s.popped = [(0, .header), (0, .body), (1, .header)] ∧ Framed plainFormat s := by
  have found : (exec (step plainFormat plqDefaultMaxSize) (Unsplit plqDefaultMaxSize)
      ({} : SinkSystem (Fin 2)) [.queueHeader 0 .null false, .pull, .queueBody 0, .pop,
        .queueHeader 1 .null false, .pull, .pop, .pop, .queueBody 1]).any
      (fun s => parts s.popped = [(0, .header), (0, .body), (1, .header)]) = true := by
    decide +kernel
  obtain ⟨s, reached, popped⟩ := reached_of_exec found
  exact ⟨s, reached, of_decide_eq_true popped, framed_reached reached⟩

/-- Between two headers that are popped one behind the other there is no body. -/
theorem not_framed_headers {τ : Type} {format : PayloadFormat} {s : SinkSystem τ}
    {first : SinkPayload} {second : SinkPayload} (popped : s.popped = [first, second])
    (header : second.part = .header) : ¬ Framed format s := by
  rintro ⟨pairs, framing, whole | ⟨q, -, cut, -⟩⟩
  · cases pairs with
    | nil => cases popped.symm.trans whole
    | cons q rest =>
      rw [popped, row_cons] at whole
      obtain ⟨-, behind⟩ := List.cons.inj whole
      obtain ⟨rfl, -⟩ := List.cons.inj behind
      have body := (framing q (List.mem_cons_self ..)).body
      rw [header] at body
      cases body
  · have odd := congrArg List.length (popped.symm.trans cut)
    simp only [List.length_append, length_row, List.length_cons, List.length_nil] at odd
    omega

/-- The headers of two processors come between each other's bodies, and a header that is
too long is dropped alone. -/
theorem pairs_split :
    (∃ s : SinkSystem (Fin 2), Reaches (step plainFormat plqDefaultMaxSize) Always {} s ∧
      ¬ Framed plainFormat s) ∧
    ∃ s : SinkSystem (Fin 1), Reaches (step plainFormat 10) Always {} s ∧
      parts s.popped = [(0, .body)] := by
  constructor
  · have found : (exec (step plainFormat plqDefaultMaxSize) Always ({} : SinkSystem (Fin 2))
        [.queueHeader 0 .null false, .queueHeader 1 .null false, .queueBody 0, .queueBody 1,
          .pull, .pop, .pop]).any
        (fun s => parts s.popped = [(0, .header), (1, .header)]) = true := by
      decide +kernel
    obtain ⟨s, reached, popped⟩ := reached_of_exec found
    have headers := of_decide_eq_true popped
    obtain ⟨first, rest, split, -, behind⟩ := List.map_eq_cons_iff.mp headers
    obtain ⟨second, none, rfl, second', end'⟩ := List.map_eq_cons_iff.mp behind
    obtain rfl := List.map_eq_nil_iff.mp end'
    exact ⟨s, reached, not_framed_headers split (congrArg Prod.snd second')⟩
  · have found : (exec (step plainFormat 10) Always ({} : SinkSystem (Fin 1))
        [.queueHeader 0 .null false, .queueBody 0, .pull, .pop]).any
        (fun s => parts s.popped = [(0, .body)]) = true := by
      decide +kernel
    obtain ⟨s, reached, popped⟩ := reached_of_exec found
    exact ⟨s, reached, of_decide_eq_true popped⟩

end NetifyAgent.SinkQueue
