import Xv6Kernel.Foundation.Staying
import Xv6Kernel.Process.Runs

/-!
# One hart never waits for a lock

A hart that comes to the loop of `acquire` has turned interrupts off and does not hold the
lock.  With no other hart to hold it the lock is free, and nothing can come between the
load and the store of the test.
-/

namespace Xv6Kernel.Process

open Xv6Kernel.Foundation Xv6Kernel.Mm

section Harts

variable {H : Type} [DecidableEq H] {S : Setting H} {β : Type} {h : H} {lk : Lock}
  {m : Config (Instr H) H (Ctx H) (World H)} {next : Unit → Code H Empty}

/-- Whoever is about to test a lock cannot be interrupted and does not hold it. -/
theorem spin_masked (good : (logic S).Good m) (hcode : m.code h = .step (.spin lk) next) :
    (m.world.csr h).sstatus.sie = false ∧ (m.world.lock lk).locked ≠ some h := by
  obtain ⟨l, on, hhalf, hdepth, hlk⟩ := good.called hcode rfl
  refine ⟨(on.masked (by omega)).1, fun hlocked => ?_⟩
  rcases (on.held lk).mp hlocked with hmem | htaken
  · exact hlk hmem
  · rw [hhalf] at htaken
    cases htaken

end Harts

variable {S : Setting Unit} {entries : List Word} {memory : Memory} {β : Type} {lk : Lock}
  {m m' : Config (Instr Unit) Unit (Ctx Unit) (World Unit)} {next : Unit → Code Unit Empty}

/-- The only hart executes its next instruction when it cannot be interrupted. -/
theorem step_of_call {i : Instr Unit β} {next : β → Code Unit Empty} {body : Code Unit β}
    (hsie : (m.world.csr ()).sstatus.sie = false) (hcode : m.code () = .step i next)
    (heffect : effect S.img i = .call body) (hstep : Step (platform S.img S.quiet) m m') :
    m'.world = m.world ∧ m'.code () = body >>= next := by
  cases hstep with
  | atomic h hcode' heffect' =>
      cases hcode.symm.trans hcode'
      cases heffect.symm.trans heffect'
  | call h hcode' heffect' =>
      cases hcode.symm.trans hcode'
      cases heffect.symm.trans heffect'
      cases h
      exact ⟨rfl, Function.update_self () _ m.code⟩
  | choose h answer hcode' heffect' =>
      cases hcode.symm.trans hcode'
      cases heffect.symm.trans heffect'
  | switch h hcode' heffect' =>
      cases hcode.symm.trans hcode'
      cases heffect.symm.trans heffect'
  | trap h htrap => exact absurd (htrap.1.symm.trans hsie) (by decide)

theorem step_of_act {f : Unit → World Unit → β × World Unit} {next : β → Code Unit Empty}
    (hsie : (m.world.csr ()).sstatus.sie = false) (hcode : m.code () = .step (.act f) next)
    (hstep : Step (platform S.img S.quiet) m m') :
    m'.world = (f () m.world).2 ∧ m'.code () = next (f () m.world).1 := by
  cases hstep with
  | atomic h hcode' heffect' =>
      cases hcode.symm.trans hcode'
      cases heffect'
      cases h
      exact ⟨rfl, Function.update_self () _ m.code⟩
  | call h hcode' heffect' =>
      cases hcode.symm.trans hcode'
      cases heffect'
  | choose h answer hcode' heffect' =>
      cases hcode.symm.trans hcode'
      cases heffect'
  | switch h hcode' heffect' =>
      cases hcode.symm.trans hcode'
      cases heffect'
  | trap h htrap => exact absurd (htrap.1.symm.trans hsie) (by decide)

/-- Whatever the hart does next, two steps after it has come to the loop of `acquire` it has
the lock and is behind the loop. -/
def TakesAtOnce (S : Setting Unit) (m : Config (Instr Unit) Unit (Ctx Unit) (World Unit)) : Prop :=
  ∀ {lk next m₁ m₂}, m.code () = .step (.spin lk) next →
    Step (platform S.img S.quiet) m m₁ → Step (platform S.img S.quiet) m₁ m₂ →
    m₂.code () = next () ∧
      m₂.world = m.world.setLock lk fun l => { l with locked := some () }

theorem acquire_never_waits (reaches : Reaches S entries memory m) : TakesAtOnce S m := by
  intro lk next m₁ m₂ hcode first second
  obtain ⟨hsie, hother⟩ := spin_masked reaches.good hcode
  have hfree : (m.world.lock lk).locked = none := by
    cases hlocked : (m.world.lock lk).locked with
    | none => rfl
    | some h => exact absurd hlocked hother
  obtain ⟨hworld, htest⟩ := step_of_call hsie hcode rfl first
  obtain ⟨hworld', htaken⟩ := step_of_act (by rwa [hworld]) htest second
  simp only [hworld, hfree] at hworld' htaken
  exact ⟨htaken, hworld'⟩

theorem reaches_act {f : Unit → World Unit → β × World Unit} {next : β → Code Unit Empty}
    (reaches : Reaches S entries memory m) (hcode : m.code () = .step (.act f) next) :
    Reaches S entries memory
      { m with
        world := (f () m.world).2
        code := Function.update m.code () (next (f () m.world).1) } :=
  reaches.tail (.atomic () hcode rfl)

/-- The first lock that the boot takes. -/
theorem acquire_never_waits_sample : ∃ m next,
    m.code () = .step (.spin (.proc ⟨0, by decide⟩)) next ∧ TakesAtOnce sampleSetting m := by
  have called : Reaches sampleSetting [] ⟨fun _ => 0, 0, 0⟩ _ :=
    sampleBoot_reached.tail (.call () (i := .acquire (.proc ⟨0, by decide⟩)) rfl rfl)
  -- `push_off`, and the one load of `holding`
  have read := reaches_act called rfl
  have masked := reaches_act read rfl
  have counted := reaches_act masked rfl
  have stored := reaches_act counted rfl
  have deep := reaches_act stored rfl
  have checked := reaches_act deep rfl
  exact ⟨_, _, rfl, acquire_never_waits checked⟩

end Xv6Kernel.Process
