import Mathlib.Logic.Relation
import Mathlib.Logic.Function.Basic
import Xv6Kernel.Foundation.Program

/-!
# Harts, saved contexts and interrupts

A machine has harts (`H`), saved contexts (`C`) and a world (`W`) that all harts
share.  Every hart runs a program; an instruction is an atomic action on the
world, a call of another program, a switch to a saved context, a choice made
outside the program, or a halt.  Between any two instructions of a hart another
hart may run, and the hart itself may trap into the handler.
-/

namespace Xv6Kernel.Foundation

/-- What an instruction does when a hart executes it. -/
inductive Effect (I : Type → Type 1) (H C W β : Type) : Type 1 where
  | atomic (act : H → W → β × W)
  | call (body : Program I β)
  | switch (old new : C) (transfer : H → W → W) (answer : β)
  | choose
  | halt (message : String)

structure Platform (I : Type → Type 1) (H C W : Type) where
  effect : ∀ {β : Type}, I β → Effect I H C W β
  /-- The context whose stack a hart is executing on. -/
  current : W → H → C
  /-- A context that has never run starts here instead of where it was saved. -/
  fresh : C → W → Option (Program I Empty)
  /-- A trap taken by a hart, with what the hardware does on entry. -/
  trap : H → W → W → Prop
  handler : Program I Unit

structure Config (I : Type → Type 1) (H C W : Type) where
  world : W
  code : H → Program I Empty
  saved : C → Program I Empty

section Machine

variable {I : Type → Type 1} {H C W : Type}

/-- The program found behind a context when a hart switches to it. -/
def Platform.resumed (P : Platform I H C W) (saved : C → Program I Empty)
    (context : C) (world : W) : Program I Empty :=
  (P.fresh context world).getD (saved context)

inductive Step [DecidableEq H] [DecidableEq C] (P : Platform I H C W) :
    Config I H C W → Config I H C W → Prop where
  | atomic {m : Config I H C W} (h : H) {β : Type} {i : I β}
      {next : β → Program I Empty} {act : H → W → β × W}
      (hcode : m.code h = .step i next) (heffect : P.effect i = .atomic act) :
      Step P m
        { m with
          world := (act h m.world).2
          code := Function.update m.code h (next (act h m.world).1) }
  | call {m : Config I H C W} (h : H) {β : Type} {i : I β}
      {next : β → Program I Empty} {body : Program I β}
      (hcode : m.code h = .step i next) (heffect : P.effect i = .call body) :
      Step P m { m with code := Function.update m.code h (body >>= next) }
  | choose {m : Config I H C W} (h : H) {β : Type} {i : I β}
      {next : β → Program I Empty} (answer : β)
      (hcode : m.code h = .step i next) (heffect : P.effect i = .choose) :
      Step P m { m with code := Function.update m.code h (next answer) }
  | switch {m : Config I H C W} (h : H) {β : Type} {i : I β}
      {next : β → Program I Empty} {old new : C} {transfer : H → W → W}
      {answer : β} (hcode : m.code h = .step i next)
      (heffect : P.effect i = .switch old new transfer answer) :
      Step P m
        { world := transfer h m.world
          code := Function.update m.code h
            (P.resumed m.saved new (transfer h m.world))
          saved := Function.update m.saved old (next answer) }
  | trap {m : Config I H C W} (h : H) {world : W}
      (htrap : P.trap h m.world world) :
      Step P m
        { m with
          world := world
          code := Function.update m.code h (P.handler >>= fun _ => m.code h) }

abbrev Reachable [DecidableEq H] [DecidableEq C] (P : Platform I H C W) :
    Config I H C W → Config I H C W → Prop :=
  Relation.ReflTransGen (Step P)

/-!
## A program logic for one hart among others

`Rely h` is what the other harts may do while `h` runs, `Keep c` what every hart
leaves alone for the suspended context `c`, `Resume c h` what holds when `h`
switches to `c`, and `Preempt` what a trap does to the program it interrupts.
-/

structure Logic (P : Platform I H C W) where
  Inv : W → Prop
  Rely : H → W → W → Prop
  Keep : C → W → W → Prop
  Resume : C → H → W → Prop
  Preempt : H → W → H → W → Prop
  /-- What a hart must have established when it is about to switch. -/
  Handoff : C → C → H → W → Prop
  /-- The contract of the instructions that call a program. -/
  pre : ∀ {β : Type}, I β → H → W → Prop
  post : ∀ {β : Type}, I β → H → W → β → H → W → Prop
  MayHalt : String → Prop
  /-- What a step of a hart may do to the world, of no use to the other harts. -/
  Allowed : H → W → W → Prop
  keep_trans : ∀ {c w₁ w₂ w₃}, Keep c w₁ w₂ → Keep c w₂ w₃ → Keep c w₁ w₃

namespace Logic

variable {P : Platform I H C W} (L : Logic P) {α β : Type}

/-- What may happen to a hart and the world while its program stands still. -/
inductive Env (h : H) (w : W) : H → W → Prop where
  | refl : Env h w h w
  | rely {h₁ : H} {w₁ w₂ : W} (before : Env h w h₁ w₁)
      (others : L.Rely h₁ w₁ w₂) (inv : L.Inv w₂) : Env h w h₁ w₂
  | preempt {h₁ h₂ : H} {w₁ w₂ wt : W} (before : Env h w h₁ w₁)
      (trap : P.trap h₁ w₁ wt) (handled : L.Preempt h₁ w₁ h₂ w₂)
      (inv : L.Inv w₂) : Env h w h₂ w₂

theorem Env.trans {L : Logic P} {h₁ h₂ h₃ : H} {w₁ w₂ w₃ : W}
    (first : L.Env h₁ w₁ h₂ w₂) (second : L.Env h₂ w₂ h₃ w₃) :
    L.Env h₁ w₁ h₃ w₃ := by
  induction second with
  | refl => exact first
  | rely _ others inv ih => exact .rely ih others inv
  | preempt _ trap handled inv ih => exact .preempt ih trap handled inv

/-- A step of `h` keeps the invariant and what everybody else relies on. -/
structure Guarantee (h : H) (w w' : W) : Prop where
  inv : L.Inv w'
  allowed : L.Allowed h w w'
  current : P.current w' = P.current w
  rely : ∀ h', h' ≠ h → L.Rely h' w w'
  keep : ∀ c, (∀ h', P.current w h' ≠ c) → L.Keep c w w'

variable [DecidableEq H]

structure Switches (old new : C) (h : H) (w w' : W) : Prop where
  handoff : L.Handoff old new h w
  from_old : P.current w h = old
  new_suspended : ∀ h', P.current w h' ≠ new
  inv : L.Inv w'
  allowed : L.Allowed h w w'
  current : P.current w' = Function.update (P.current w) h new
  rely : ∀ h', h' ≠ h → L.Rely h' w w'
  keep : ∀ c, (∀ h', P.current w h' ≠ c) → L.Keep c w w'
  resume : L.Resume new h w'

/-- Executing one instruction on `h` is fine and leads into `K`. -/
def Does (i : I β) (K : β → H → W → Prop) (h : H) (w : W) : Prop :=
  match P.effect i with
  | .atomic act => L.Guarantee h w (act h w).2 ∧ K (act h w).1 h (act h w).2
  | .call _ =>
      L.pre i h w ∧
        ∀ answer h' w', L.Inv w' → L.post i h w answer h' w' → K answer h' w'
  | .switch old new transfer answer =>
      L.Switches old new h w (transfer h w) ∧
        ∀ h' w', L.Inv w' → L.Resume old h' w' →
          L.Keep old (transfer h w) w' → P.fresh old w' = none → K answer h' w'
  | .choose => ∀ answer, K answer h w
  | .halt message => L.MayHalt message

/-- Weakest precondition of a program, with the environment before each step. -/
def wp : Program I α → (α → H → W → Prop) → H → W → Prop
  | .done value, Q => fun h w => Q value h w
  | .step i next, Q => fun h w =>
      ∀ h' w', L.Env h w h' w' → L.Inv w' →
        L.Does i (fun answer => wp (next answer) Q) h' w'

@[simp] theorem wp_done (value : α) (Q : α → H → W → Prop) (h : H) (w : W) :
    L.wp (.done value) Q h w = Q value h w := rfl

theorem Does.mono {L : Logic P} {i : I β} {K K' : β → H → W → Prop} {h : H}
    {w : W} (hinv : L.Inv w)
    (hmono : ∀ answer h' w', L.Inv w' → K answer h' w' → K' answer h' w')
    (does : L.Does i K h w) : L.Does i K' h w := by
  unfold Does at does ⊢
  cases heffect : P.effect i with
  | atomic act =>
      rw [heffect] at does
      exact ⟨does.1, hmono _ _ _ does.1.inv does.2⟩
  | call body =>
      rw [heffect] at does
      exact ⟨does.1, fun answer h' w' hinv' hpost =>
        hmono _ _ _ hinv' (does.2 answer h' w' hinv' hpost)⟩
  | switch old new transfer answer =>
      rw [heffect] at does
      exact ⟨does.1, fun h' w' hinv' hresume hkeep hfresh =>
        hmono _ _ _ hinv' (does.2 h' w' hinv' hresume hkeep hfresh)⟩
  | choose =>
      rw [heffect] at does
      exact fun answer => hmono _ _ _ hinv (does answer)
  | halt message =>
      rw [heffect] at does
      exact does

theorem wp_mono {L : Logic P} {program : Program I α}
    {Q Q' : α → H → W → Prop} {h : H} {w : W} (hinv : L.Inv w)
    (hmono : ∀ value h' w', L.Inv w' → Q value h' w' → Q' value h' w')
    (hwp : L.wp program Q h w) : L.wp program Q' h w := by
  induction program generalizing h w with
  | done value => exact hmono value h w hinv hwp
  | step i next ih =>
      intro h' w' henv hinv'
      exact (hwp h' w' henv hinv').mono hinv' fun answer h'' w'' hinv'' hnext =>
        ih answer hinv'' hnext

theorem wp_bind (program : Program I α) (rest : α → Program I β)
    (Q : β → H → W → Prop) (h : H) (w : W) :
    L.wp (program >>= rest) Q h w ↔
      L.wp program (fun value => L.wp (rest value) Q) h w := by
  induction program generalizing h w with
  | done value => rfl
  | step i next ih =>
      have hnext : (fun answer => L.wp (next answer >>= rest) Q) =
          fun answer => L.wp (next answer) fun value => L.wp (rest value) Q := by
        funext answer h' w'
        exact propext (ih answer h' w')
      simp only [Program.step_bind, wp, hnext]

/-- What holds after a program for each of several reasons holds for all. -/
theorem wp_forall {ι : Sort*} [Nonempty ι] {program : Program I α}
    {Q : ι → α → H → W → Prop} {h : H} {w : W}
    (hwp : ∀ i, L.wp program (Q i) h w) :
    L.wp program (fun value h' w' => ∀ i, Q i value h' w') h w := by
  induction program generalizing h w with
  | done value => exact hwp
  | step i next ih =>
      intro h' w' henv hinv
      have hdoes := fun j => hwp j h' w' henv hinv
      obtain ⟨j₀⟩ := ‹Nonempty ι›
      unfold Does at hdoes ⊢
      cases heffect : P.effect i with
      | atomic act =>
          simp only [heffect] at hdoes
          exact ⟨(hdoes j₀).1, ih _ fun j => (hdoes j).2⟩
      | call body =>
          simp only [heffect] at hdoes
          exact ⟨(hdoes j₀).1, fun answer h'' w'' hinv' hpost =>
            ih answer fun j => (hdoes j).2 answer h'' w'' hinv' hpost⟩
      | switch old new transfer answer =>
          simp only [heffect] at hdoes
          exact ⟨(hdoes j₀).1, fun h'' w'' hinv' hresume hkeep hfresh =>
            ih answer fun j => (hdoes j).2 h'' w'' hinv' hresume hkeep hfresh⟩
      | choose =>
          simp only [heffect] at hdoes
          exact fun answer => ih answer fun j => hdoes j answer
      | halt message =>
          simp only [heffect] at hdoes
          exact hdoes j₀

/-- A program that never answers may be looked at any time later. -/
theorem wp_env {program : Program I Empty} {Q : Empty → H → W → Prop}
    {h h' : H} {w w' : W} (hwp : L.wp program Q h w) (henv : L.Env h w h' w') :
    L.wp program Q h' w' := by
  cases program with
  | done value => exact value.elim
  | step i next =>
      intro h'' w'' henv' hinv
      exact hwp h'' w'' (henv.trans henv') hinv

/-!
## Soundness

What is proved of the called programs, of the handler and of the fresh starts,
each on its own, holds of every run of all harts together.
-/

def ResumeSafe (c : C) (program : Program I Empty) (w : W) : Prop :=
  ∀ h' w', L.Inv w' → L.Resume c h' w' → L.Keep c w w' →
    P.fresh c w' = none → L.wp program (fun value _ _ => value.elim) h' w'

structure Good (m : Config I H C W) : Prop where
  inv : L.Inv m.world
  running : ∀ h, L.wp (m.code h) (fun value _ _ => value.elim) h m.world
  suspended : ∀ c, (∀ h, P.current m.world h ≠ c) →
    L.ResumeSafe c (m.saved c) m.world

structure Verified : Prop where
  call : ∀ {β : Type} {i : I β} {body : Program I β} {h : H} {w : W},
    P.effect i = .call body → L.Inv w → L.pre i h w →
      L.wp body (fun answer h' w' => L.post i h w answer h' w') h w
  handler : ∀ {h : H} {w w' : W}, L.Inv w → P.trap h w w' →
    L.Guarantee h w w' ∧
      L.wp P.handler (fun _ h₂ w₂ => L.Preempt h w h₂ w₂) h w'
  fresh : ∀ {c : C} {program : Program I Empty} {h : H} {w : W},
    P.fresh c w = some program → L.Inv w → L.Resume c h w →
      L.wp program (fun value _ _ => value.elim) h w

theorem ResumeSafe.keep {L : Logic P} {c : C} {program : Program I Empty}
    {w w' : W} (safe : L.ResumeSafe c program w) (keep : L.Keep c w w') :
    L.ResumeSafe c program w' :=
  fun h w'' hinv hresume hkeep => safe h w'' hinv hresume (L.keep_trans keep hkeep)

/-- A step of one hart that leaves every context where it is. -/
theorem Good.advance {L : Logic P} {m : Config I H C W} (good : L.Good m)
    {h : H} {w : W} {program : Program I Empty}
    (guarantee : L.Guarantee h m.world w)
    (hwp : L.wp program (fun value _ _ => value.elim) h w) :
    L.Good { m with world := w, code := Function.update m.code h program } where
  inv := guarantee.inv
  running := by
    intro h'
    by_cases heq : h' = h
    · subst heq
      simpa using hwp
    · simpa [heq] using
        L.wp_env (good.running h') (.rely .refl (guarantee.rely h' heq) guarantee.inv)
  suspended := by
    intro c hc
    simp only [guarantee.current] at hc
    exact (good.suspended c hc).keep (guarantee.keep c hc)

theorem Good.does {L : Logic P} {m : Config I H C W} (good : L.Good m) {h : H}
    {i : I β} {next : β → Program I Empty} (hcode : m.code h = .step i next) :
    L.Does i (fun answer => L.wp (next answer) fun value _ _ => value.elim) h
      m.world := by
  have hrun := good.running h
  rw [hcode] at hrun
  exact hrun h m.world .refl good.inv

theorem Good.same {L : Logic P} {m : Config I H C W} (good : L.Good m)
    {h : H} {program : Program I Empty}
    (hwp : L.wp program (fun value _ _ => value.elim) h m.world) :
    L.Good { m with code := Function.update m.code h program } where
  inv := good.inv
  running := by
    intro h'
    by_cases heq : h' = h
    · subst heq
      simpa using hwp
    · simpa [heq] using good.running h'
  suspended := good.suspended

section Run

variable [DecidableEq C]

private theorem Good.switch {L : Logic P} {m : Config I H C W} (good : L.Good m)
    (verified : L.Verified) {h : H} {w : W} {old new : C}
    {program : Program I Empty} (switches : L.Switches old new h m.world w)
    (safe : L.ResumeSafe old program w) :
    L.Good
      { world := w
        code := Function.update m.code h (P.resumed m.saved new w)
        saved := Function.update m.saved old program } where
  inv := switches.inv
  running := by
    intro h'
    by_cases heq : h' = h
    · subst heq
      simp only [Function.update_self, Platform.resumed]
      cases hfresh : P.fresh new w with
      | some start => exact verified.fresh hfresh switches.inv switches.resume
      | none =>
          exact good.suspended new switches.new_suspended h' w switches.inv
            switches.resume (switches.keep new switches.new_suspended) hfresh
    · simpa [heq] using
        L.wp_env (good.running h') (.rely .refl (switches.rely h' heq) switches.inv)
  suspended := by
    intro c hc
    by_cases hold : c = old
    · subst hold
      simpa using safe
    · have hbefore : ∀ h', P.current m.world h' ≠ c := by
        intro h'
        by_cases heq : h' = h
        · subst heq
          rw [switches.from_old]
          exact Ne.symm hold
        · simpa [switches.current, heq] using hc h'
      simpa [hold] using (good.suspended c hbefore).keep (switches.keep c hbefore)

theorem Good.step {L : Logic P} (verified : L.Verified)
    {m m' : Config I H C W} (good : L.Good m) (hstep : Step P m m') :
    L.Good m' := by
  cases hstep with
  | atomic h hcode heffect =>
      have hdoes := good.does hcode
      simp only [Does, heffect] at hdoes
      exact good.advance hdoes.1 hdoes.2
  | call h hcode heffect =>
      have hdoes := good.does hcode
      simp only [Does, heffect] at hdoes
      refine good.same ((L.wp_bind _ _ _ _ _).mpr ?_)
      exact wp_mono good.inv (fun answer h' w' hinv hpost =>
        hdoes.2 answer h' w' hinv hpost) (verified.call heffect good.inv hdoes.1)
  | choose h answer hcode heffect =>
      have hdoes := good.does hcode
      simp only [Does, heffect] at hdoes
      exact good.same (hdoes answer)
  | switch h hcode heffect =>
      have hdoes := good.does hcode
      simp only [Does, heffect] at hdoes
      exact good.switch verified hdoes.1 hdoes.2
  | trap h htrap =>
      obtain ⟨guarantee, hhandler⟩ := verified.handler good.inv htrap
      refine good.advance guarantee ((L.wp_bind _ _ _ _ _).mpr ?_)
      exact wp_mono guarantee.inv (fun _ h' w' hinv hpreempt =>
        L.wp_env (good.running h) (.preempt .refl htrap hpreempt hinv)) hhandler

theorem Good.reachable {L : Logic P} (verified : L.Verified)
    {m m' : Config I H C W} (good : L.Good m) (hreach : Reachable P m m') :
    L.Good m' := by
  induction hreach with
  | refl => exact good
  | tail _ hstep ih => exact ih.step verified hstep

end Run

/-- Every step of every run is one hart's, and changes the world in an allowed way,
if at all. -/
theorem Good.allowed [DecidableEq C] {L : Logic P} (verified : L.Verified)
    {m m' : Config I H C W} (good : L.Good m) (hstep : Step P m m') :
    ∃ h, (∀ h', h' ≠ h → m'.code h' = m.code h') ∧
      (m'.world = m.world ∨ L.Allowed h m.world m'.world) := by
  cases hstep with
  | atomic h hcode heffect =>
      have hdoes := good.does hcode
      simp only [Does, heffect] at hdoes
      exact ⟨h, fun _ hne => Function.update_of_ne hne .., .inr hdoes.1.allowed⟩
  | call h hcode heffect => exact ⟨h, fun _ hne => Function.update_of_ne hne .., .inl rfl⟩
  | choose h answer hcode heffect =>
      exact ⟨h, fun _ hne => Function.update_of_ne hne .., .inl rfl⟩
  | switch h hcode heffect =>
      have hdoes := good.does hcode
      simp only [Does, heffect] at hdoes
      exact ⟨h, fun _ hne => Function.update_of_ne hne .., .inr hdoes.1.allowed⟩
  | trap h htrap =>
      exact ⟨h, fun _ hne => Function.update_of_ne hne ..,
        .inr (verified.handler good.inv htrap).1.allowed⟩

theorem Good.mayHalt {L : Logic P} {m : Config I H C W} (good : L.Good m)
    {h : H} {i : I β} {next : β → Program I Empty} {message : String}
    (hcode : m.code h = .step i next) (heffect : P.effect i = .halt message) :
    L.MayHalt message := by
  simpa only [Does, heffect] using good.does hcode

theorem Good.handoff {L : Logic P} {m : Config I H C W} (good : L.Good m)
    {h : H} {i : I β} {next : β → Program I Empty} {old new : C}
    {transfer : H → W → W} {answer : β} (hcode : m.code h = .step i next)
    (heffect : P.effect i = .switch old new transfer answer) :
    L.Handoff old new h m.world := by
  have hdoes := good.does hcode
  simp only [Does, heffect] at hdoes
  exact hdoes.1.handoff

theorem Good.called {L : Logic P} {m : Config I H C W} (good : L.Good m)
    {h : H} {i : I β} {next : β → Program I Empty} {body : Program I β}
    (hcode : m.code h = .step i next) (heffect : P.effect i = .call body) :
    L.pre i h m.world := by
  have hdoes := good.does hcode
  simp only [Does, heffect] at hdoes
  exact hdoes.1

end Logic

end Machine

end Xv6Kernel.Foundation
