import Mathlib.Logic.Function.Basic

/-!
# Programs as trees of instructions

A `Program I α` issues instructions of the signature `I`, one at a time, and
finally answers with an `α`.  Nothing here says what an instruction does: a
sequential interpreter is `run`, and the interleaving machine of
`Foundation.Interleaving` is another reading of the same tree.
-/

namespace Xv6Kernel.Foundation

inductive Program (I : Type → Type 1) (α : Type) : Type 1 where
  | done (value : α)
  | step {β : Type} (instruction : I β) (next : β → Program I α)

namespace Program

variable {I J : Type → Type 1} {α β γ : Type}

protected def bind : Program I α → (α → Program I β) → Program I β
  | .done value, rest => rest value
  | .step instruction next, rest =>
      .step instruction fun answer => (next answer).bind rest

instance : Monad (Program I) where
  pure := .done
  bind := Program.bind

/-- The program of one instruction, which answers what the instruction does. -/
def perform (instruction : I α) : Program I α := .step instruction .done

/-- A loop over a list of items. -/
def forEach {ι : Type} : List ι → (ι → Program I Unit) → Program I Unit
  | [], _ => .done ()
  | item :: items, body => body item >>= fun _ => forEach items body

@[simp] theorem done_bind (value : α) (rest : α → Program I β) :
    (.done value : Program I α) >>= rest = rest value := rfl

@[simp] theorem step_bind (instruction : I γ) (next : γ → Program I α)
    (rest : α → Program I β) :
    (.step instruction next : Program I α) >>= rest =
      .step instruction fun answer => next answer >>= rest := rfl

@[simp] theorem pure_eq_done (value : α) :
    (pure value : Program I α) = .done value := rfl

protected theorem bind_pure' (program : Program I α) :
    program >>= (.done : α → Program I α) = program := by
  induction program with
  | done value => rfl
  | step instruction next ih =>
      simp only [step_bind]
      congr
      funext answer
      exact ih answer

protected theorem bind_assoc' (program : Program I α)
    (rest : α → Program I β) (last : β → Program I γ) :
    program >>= rest >>= last = program >>= fun value => rest value >>= last := by
  induction program with
  | done value => rfl
  | step instruction next ih =>
      simp only [step_bind]
      congr
      funext answer
      exact ih answer

instance : LawfulMonad (Program I) :=
  LawfulMonad.mk' (Program I) Program.bind_pure' (fun _ _ => rfl)
    Program.bind_assoc'

/-- Rename every instruction, leaving the shape of the program alone. -/
def translate (rename : ∀ {β : Type}, I β → J β) : Program I α → Program J α
  | .done value => .done value
  | .step instruction next =>
      .step (rename instruction) fun answer => (next answer).translate rename

theorem translate_bind (rename : ∀ {β : Type}, I β → J β)
    (program : Program I α) (rest : α → Program I β) :
    (program >>= rest).translate rename =
      program.translate rename >>= fun value => (rest value).translate rename := by
  induction program with
  | done value => rfl
  | step instruction next ih =>
      simp only [step_bind, translate]
      congr
      funext answer
      exact ih answer

/-- Every instruction that the program can come to is `good`. -/
def Every (good : ∀ {β : Type}, I β → Prop) : Program I α → Prop
  | .done _ => True
  | .step instruction next => good instruction ∧ ∀ answer, (next answer).Every good

theorem Every.bind {good : ∀ {β : Type}, I β → Prop} {program : Program I α}
    {rest : α → Program I β} (h : program.Every good)
    (hrest : ∀ value, (rest value).Every good) : (program >>= rest).Every good := by
  induction program with
  | done value => exact hrest value
  | step instruction next ih => exact ⟨h.1, fun answer => ih answer (h.2 answer)⟩

theorem every_perform {good : ∀ {β : Type}, I β → Prop} {instruction : I α}
    (h : good instruction) : (perform instruction).Every good :=
  ⟨h, fun _ => trivial⟩

section Run

variable {σ ε : Type} (exec : ∀ {β : Type}, I β → σ → Except ε (β × σ))

/-- Run a program alone, one instruction after the other, from a state. -/
def run : Program I α → σ → Except ε (α × σ)
  | .done value, state => .ok (value, state)
  | .step instruction next, state =>
      match exec instruction state with
      | .ok (answer, state') => (next answer).run state'
      | .error halt => .error halt

@[simp] theorem run_done (value : α) (state : σ) :
    (.done value : Program I α).run exec state = .ok (value, state) := rfl

@[simp] theorem run_perform (instruction : I α) (state : σ) :
    (perform instruction).run exec state = exec instruction state := by
  simp only [perform, run]
  cases exec instruction state <;> rfl

@[simp] theorem run_bind (program : Program I α) (rest : α → Program I β)
    (state : σ) :
    (program >>= rest).run exec state =
      match program.run exec state with
      | .ok (value, state') => (rest value).run exec state'
      | .error halt => .error halt := by
  induction program generalizing state with
  | done value => rfl
  | step instruction next ih =>
      simp only [step_bind, run]
      cases exec instruction state with
      | error halt => rfl
      | ok pair => exact ih pair.1 pair.2

/-- A run of a sequence that answers ran its two halves one after the other. -/
theorem run_bind_ok {program : Program I α} {rest : α → Program I β}
    {state state' : σ} {value : β} :
    (program >>= rest).run exec state = .ok (value, state') ↔
      ∃ middle between, program.run exec state = .ok (middle, between) ∧
        (rest middle).run exec between = .ok (value, state') := by
  rw [run_bind]
  cases program.run exec state with
  | error halt => simp
  | ok pair =>
      constructor
      · intro h
        exact ⟨pair.1, pair.2, rfl, h⟩
      · rintro ⟨middle, between, h, hrest⟩
        cases h
        exact hrest

end Run

end Program

end Xv6Kernel.Foundation
