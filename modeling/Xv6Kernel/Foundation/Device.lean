import Mathlib.Logic.Relation
import Xv6Kernel.Foundation.Program

/-!
# Programs that talk to a device

The instructions of a program are served by a device, which may answer in more than one
way and moves on its own between them.  `Ensures` is about all that the device may do.
-/

namespace Xv6Kernel.Foundation

open Relation

structure Device (I : Type → Type 1) (S : Type) where
  moves : S → S → Prop
  serves : ∀ {β : Type}, I β → S → β → S → Prop
  /-- The other instructions are the ends that no program should come to. -/
  served : ∀ {β : Type}, I β → Prop

namespace Device

variable {I : Type → Type 1} {S : Type} {α β : Type}

/-- Whatever the device does, the program comes to its end, and `Q` holds there. -/
def Ensures (D : Device I S) : Program I α → (α → S → Prop) → S → Prop
  | .done value, Q => fun s => Q value s
  | .step i next, Q => fun s =>
      ∀ s', ReflTransGen D.moves s s' →
        D.served i ∧ ∀ answer s'', D.serves i s' answer s'' → D.Ensures (next answer) Q s''

variable {D : Device I S} {program : Program I α} {Q Q' : α → S → Prop} {s : S}

theorem ensures_mono (h : D.Ensures program Q s)
    (hmono : ∀ value s', Q value s' → Q' value s') : D.Ensures program Q' s := by
  induction program generalizing s with
  | done value => exact hmono value s h
  | step i next ih =>
      intro s' hmoves
      obtain ⟨hserved, hnext⟩ := h s' hmoves
      exact ⟨hserved, fun answer s'' hserves => ih answer (hnext answer s'' hserves)⟩

theorem ensures_bind {rest : α → Program I β} {Q : β → S → Prop} :
    D.Ensures (program >>= rest) Q s ↔
      D.Ensures program (fun value => D.Ensures (rest value) Q) s := by
  induction program generalizing s with
  | done value => rfl
  | step i next ih =>
      simp only [Program.step_bind, Ensures, ih]

/-- A loop over a list keeps what each round keeps for one item more. -/
theorem ensures_forEach {ι : Type} {body : ι → Program I Unit} {K : List ι → S → Prop}
    (hbody : ∀ past item s, K past s → D.Ensures (body item) (fun _ => K (past ++ [item])) s)
    (items past : List ι) (hs : K past s) :
    D.Ensures (Program.forEach items body) (fun _ => K (past ++ items)) s := by
  induction items generalizing past s with
  | nil => simpa [Program.forEach, Ensures] using hs
  | cons item items ih =>
      refine ensures_bind.mpr (ensures_mono (hbody past item s hs) fun _ s' hs' => ?_)
      simpa using ih (past ++ [item]) hs'

/-- The device always comes to a state in which it serves the access it is asked for. -/
def Responds (D : Device I S) : Prop :=
  ∀ {β : Type} (i : I β) (s : S), D.served i →
    ∃ s' answer s'', ReflTransGen D.moves s s' ∧ D.serves i s' answer s''

/-- With a device that responds a program does come to its end. -/
theorem Ensures.exists_end (responds : D.Responds) (h : D.Ensures program Q s) :
    ∃ value s', Q value s' := by
  induction program generalizing s with
  | done value => exact ⟨value, s, h⟩
  | step i next ih =>
      obtain ⟨hserved, -⟩ := h s .refl
      obtain ⟨s', answer, s'', hmoves, hserves⟩ := responds i s hserved
      exact ih answer ((h s' hmoves).2 answer s'' hserves)

end Device

end Xv6Kernel.Foundation
