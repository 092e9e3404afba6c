import Mathlib.Data.List.Basic

/-! Programs that make calls. What a call answers is left open: a program goes on with
every answer it may get. Its ways through are lists of calls and answers; a handler with a
state of its own answers one call after another, or leaves a call unanswered. -/
namespace NetifyAgent.Calls

/-- A program that ends with a result. -/
inductive Prog (C : Type) (R : C → Type) (A : Type) where
  | done (result : A)
  | call (c : C) (next : R c → Prog C R A)

/-- A call and its answer. -/
abbrev Event (C : Type) (R : C → Type) : Type := (c : C) × R c

variable {C A B σ τ : Type} {R : C → Type}

namespace Prog

def bind : Prog C R A → (A → Prog C R B) → Prog C R B
  | .done result, rest => rest result
  | .call c next, rest => .call c fun answer => (next answer).bind rest

instance : Monad (Prog C R) where
  pure := .done
  bind := bind

@[simp] theorem pure_eq (result : A) : (pure result : Prog C R A) = .done result := rfl

@[simp] theorem bind_done (result : A) (rest : A → Prog C R B) :
    (.done result : Prog C R A) >>= rest = rest result := rfl

@[simp] theorem bind_call (c : C) (next : R c → Prog C R A) (rest : A → Prog C R B) :
    .call c next >>= rest = .call c fun answer => next answer >>= rest := rfl

/-- A call alone. -/
def ask (c : C) : Prog C R (R c) := .call c .done

@[simp] theorem bind_ask (c : C) (rest : R c → Prog C R B) : ask c >>= rest = .call c rest := rfl

/-- Calls one after another, with their answers. -/
def sequence : List C → Prog C R (List (Event C R))
  | [] => .done []
  | c :: rest => .call c fun answer => do return ⟨c, answer⟩ :: (← sequence rest)

/-- Every call that a program may make is of a kind. -/
def Makes (kind : C → Prop) : Prog C R A → Prop
  | .done _ => True
  | .call c next => kind c ∧ ∀ answer, (next answer).Makes kind

/-- The result of a program, and the state of the handler behind it. -/
def run (handle : σ → (c : C) → Option (R c × σ)) : Prog C R A → σ → Option (A × σ)
  | .done result, s => some (result, s)
  | .call c next, s => (handle s c).bind fun answered => run handle (next answered.1) answered.2

variable {handle : σ → (c : C) → Option (R c × σ)} {handle' : τ → (c : C) → Option (R c × τ)}

@[simp] theorem run_done (result : A) (s : σ) :
    (.done result : Prog C R A).run handle s = some (result, s) := rfl

theorem makes_bind {kind : C → Prop} {p : Prog C R A} {rest : A → Prog C R B}
    (first : p.Makes kind) (second : ∀ result, (rest result).Makes kind) :
    (p >>= rest).Makes kind := by
  induction p with
  | done result => exact second result
  | call c next ih => exact ⟨first.1, fun answer => ih answer (first.2 answer)⟩

/-- Calls one after another are the calls of the list. -/
theorem makes_sequence {kind : C → Prop} {calls : List C} (each : ∀ c ∈ calls, kind c) :
    (sequence calls : Prog C R _).Makes kind := by
  induction calls with
  | nil => trivial
  | cons c rest ih =>
    refine ⟨each c (List.mem_cons_self ..), fun answer => makes_bind ?_ fun _ => trivial⟩
    exact ih fun c' member => each c' (List.mem_cons_of_mem _ member)

theorem run_bind (p : Prog C R A) (rest : A → Prog C R B) (s : σ) :
    (p >>= rest).run handle s = (p.run handle s).bind fun r => (rest r.1).run handle r.2 := by
  induction p generalizing s with
  | done result => rfl
  | call c next ih =>
    change (handle s c).bind _ = ((handle s c).bind _).bind _
    rw [Option.bind_assoc]
    exact congrArg _ (funext fun answered => ih answered.1 answered.2)

/-- **Simulation.** Where one handler answers as another one does, for calls of a kind, a
program that makes only such calls has the same result with both. -/
theorem run_refines {Related : σ → τ → Prop} {kind : C → Prop}
    (each : ∀ s t c answer s', kind c → Related s t → handle s c = some (answer, s') →
      ∃ t', handle' t c = some (answer, t') ∧ Related s' t')
    {p : Prog C R A} (makes : p.Makes kind) {s s' : σ} {t : τ} {result : A} (related : Related s t)
    (ran : p.run handle s = some (result, s')) :
    ∃ t', p.run handle' t = some (result, t') ∧ Related s' t' := by
  induction p generalizing s t with
  | done r =>
    cases ran
    exact ⟨t, rfl, related⟩
  | call c next ih =>
    obtain ⟨⟨answer, s₁⟩, answered, ran⟩ := Option.bind_eq_some_iff.mp ran
    obtain ⟨t₁, answered', related₁⟩ := each s t c answer s₁ makes.1 related answered
    obtain ⟨t', ran', related'⟩ := ih answer (makes.2 answer) related₁ ran
    refine ⟨t', ?_, related'⟩
    rw [run, answered']
    exact ran'

end Prog

/-- A way through a program. -/
inductive Path : Prog C R A → List (Event C R) → A → Prop where
  | done (result : A) : Path (.done result) [] result
  | call {c : C} {next : R c → Prog C R A} (answer : R c) {log : List (Event C R)} {result : A}
      (further : Path (next answer) log result) : Path (.call c next) (⟨c, answer⟩ :: log) result

theorem path_done {result result' : A} {log : List (Event C R)} :
    Path (.done result) log result' ↔ log = [] ∧ result' = result := by
  constructor
  · rintro ⟨⟩
    exact ⟨rfl, rfl⟩
  · rintro ⟨rfl, rfl⟩
    exact .done _

theorem path_call {c : C} {next : R c → Prog C R A} {result : A} {log : List (Event C R)} :
    Path (.call c next) log result ↔
      ∃ answer rest, log = ⟨c, answer⟩ :: rest ∧ Path (next answer) rest result := by
  constructor
  · rintro (_ | ⟨answer, further⟩)
    exact ⟨answer, _, rfl, further⟩
  · rintro ⟨answer, rest, rfl, further⟩
    exact .call answer further

/-- A way through a call and what follows. -/
theorem path_ask {c : C} {rest : R c → Prog C R A} {result : A} {log : List (Event C R)} :
    Path (Prog.ask c >>= rest) log result ↔
      ∃ answer further, log = ⟨c, answer⟩ :: further ∧ Path (rest answer) further result :=
  path_call

/-- What a handler answers is a way through. -/
theorem path_of_run {handle : σ → (c : C) → Option (R c × σ)} {p : Prog C R A} {s s' : σ}
    {result : A} (ran : p.run handle s = some (result, s')) : ∃ log, Path p log result := by
  induction p generalizing s with
  | done r =>
    cases ran
    exact ⟨[], .done _⟩
  | call c next ih =>
    obtain ⟨⟨answer, s₁⟩, -, ran⟩ := Option.bind_eq_some_iff.mp ran
    obtain ⟨log, further⟩ := ih answer ran
    exact ⟨_, .call answer further⟩

end NetifyAgent.Calls
