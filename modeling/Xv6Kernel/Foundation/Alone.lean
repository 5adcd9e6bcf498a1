import Xv6Kernel.Foundation.Interleaving

/-!
# One hart running alone

`Alone P h program w r`: hart `h` executes the program from the world `w` with
nothing in between, and it answers or halts as `r` says.  There is no rule for
choices and switches, so the outcome is unique; every such run is one of the
interleavings of the machine.
-/

namespace Xv6Kernel.Foundation

variable {I : Type → Type 1} {H C W α β : Type}

/-! ## Whose step it is -/

/-- The steps of the machine, told apart by the hart that takes them. -/
inductive StepOf [DecidableEq H] [DecidableEq C] (P : Platform I H C W) (h : H)
    (m : Config I H C W) : Config I H C W → Prop where
  | atomic {β : Type} {i : I β} {next : β → Program I Empty} {act : H → W → β × W}
      (hcode : m.code h = .step i next) (heffect : P.effect i = .atomic act) :
      StepOf P h m
        { m with
          world := (act h m.world).2
          code := Function.update m.code h (next (act h m.world).1) }
  | call {β : Type} {i : I β} {next : β → Program I Empty} {body : Program I β}
      (hcode : m.code h = .step i next) (heffect : P.effect i = .call body) :
      StepOf P h m { m with code := Function.update m.code h (body >>= next) }
  | choose {β : Type} {i : I β} {next : β → Program I Empty} (answer : β)
      (hcode : m.code h = .step i next) (heffect : P.effect i = .choose) :
      StepOf P h m { m with code := Function.update m.code h (next answer) }
  | switch {β : Type} {i : I β} {next : β → Program I Empty} {old new : C}
      {transfer : H → W → W} {answer : β} (hcode : m.code h = .step i next)
      (heffect : P.effect i = .switch old new transfer answer) :
      StepOf P h m
        { world := transfer h m.world
          code := Function.update m.code h
            (P.resumed m.saved new (transfer h m.world))
          saved := Function.update m.saved old (next answer) }
  | trap {world : W} (htrap : P.trap h m.world world) :
      StepOf P h m
        { m with
          world := world
          code := Function.update m.code h (P.handler >>= fun _ => m.code h) }

section Steps

variable [DecidableEq H] [DecidableEq C] {P : Platform I H C W} {h h' : H}
  {m m' : Config I H C W}

theorem step_iff : Step P m m' ↔ ∃ h, StepOf P h m m' := by
  constructor
  · intro hstep
    cases hstep with
    | atomic h hcode heffect => exact ⟨h, .atomic hcode heffect⟩
    | call h hcode heffect => exact ⟨h, .call hcode heffect⟩
    | choose h answer hcode heffect => exact ⟨h, .choose answer hcode heffect⟩
    | switch h hcode heffect => exact ⟨h, .switch hcode heffect⟩
    | trap h htrap => exact ⟨h, .trap htrap⟩
  · rintro ⟨h, hstep⟩
    cases hstep with
    | atomic hcode heffect => exact .atomic h hcode heffect
    | call hcode heffect => exact .call h hcode heffect
    | choose answer hcode heffect => exact .choose h answer hcode heffect
    | switch hcode heffect => exact .switch h hcode heffect
    | trap htrap => exact .trap h htrap

theorem StepOf.step (hstep : StepOf P h m m') : Step P m m' := step_iff.mpr ⟨h, hstep⟩

theorem StepOf.code_of_ne (hstep : StepOf P h' m m') (hne : h ≠ h') :
    m'.code h = m.code h := by
  cases hstep <;> exact Function.update_of_ne hne ..

end Steps

/-! ## Alone -/

inductive Alone (P : Platform I H C W) (h : H) :
    {α : Type} → Program I α → W → Except String (α × W) → Prop where
  | done {α : Type} (value : α) (w : W) : Alone P h (.done value) w (.ok (value, w))
  | atomic {α β : Type} {i : I β} {next : β → Program I α} {act : H → W → β × W} {w : W}
      {r : Except String (α × W)} (heffect : P.effect i = .atomic act)
      (hnext : Alone P h (next (act h w).1) (act h w).2 r) :
      Alone P h (.step i next) w r
  | call {α β : Type} {i : I β} {next : β → Program I α} {body : Program I β} {w w' : W}
      {answer : β} {r : Except String (α × W)} (heffect : P.effect i = .call body)
      (hbody : Alone P h body w (.ok (answer, w')))
      (hnext : Alone P h (next answer) w' r) : Alone P h (.step i next) w r
  | callHalts {α β : Type} {i : I β} {next : β → Program I α} {body : Program I β} {w : W}
      {message : String} (heffect : P.effect i = .call body)
      (hbody : Alone P h body w (.error message)) :
      Alone P h (.step i next) w (.error message)
  | halt {α β : Type} {i : I β} {next : β → Program I α} {w : W} {message : String}
      (heffect : P.effect i = .halt message) :
      Alone P h (.step i next) w (.error message)

namespace Alone

variable {P : Platform I H C W} {h : H} {w w' : W} {program : Program I α}
  {rest : α → Program I β} {value : α} {message : String}

theorem bind {r : Except String (β × W)}
    (hprogram : Alone P h program w (.ok (value, w')))
    (hrest : Alone P h (rest value) w' r) : Alone P h (program >>= rest) w r := by
  generalize hr : Except.ok (value, w') = result at hprogram
  induction hprogram with
  | done value w =>
      cases hr
      exact hrest
  | atomic heffect _ ih => exact .atomic heffect (ih hrest hr)
  | call heffect hbody _ _ ih => exact .call heffect hbody (ih hrest hr)
  | callHalts => cases hr
  | halt => cases hr

theorem bind_halts (hprogram : Alone P h program w (.error message)) :
    Alone P h (program >>= rest) w (.error message) := by
  generalize hr : Except.error message = result at hprogram
  induction hprogram with
  | done => cases hr
  | atomic heffect _ ih => exact .atomic heffect (ih hr)
  | call heffect hbody _ _ ih => exact .call heffect hbody (ih hr)
  | callHalts heffect hbody =>
      cases hr
      exact .callHalts heffect hbody
  | halt heffect =>
      cases hr
      exact .halt heffect

theorem perform_atomic {i : I β} {act : H → W → β × W}
    (heffect : P.effect i = .atomic act) :
    Alone P h (.perform i) w (.ok (act h w)) :=
  .atomic heffect (.done ..)

theorem perform_call {i : I β} {body : Program I β} {answer : β}
    (heffect : P.effect i = .call body)
    (hbody : Alone P h body w (.ok (answer, w'))) :
    Alone P h (.perform i) w (.ok (answer, w')) :=
  .call heffect hbody (.done ..)

theorem unique {r r' : Except String (α × W)} (hr : Alone P h program w r)
    (hr' : Alone P h program w r') : r = r' := by
  induction hr with
  | done => cases hr'; rfl
  | atomic heffect _ ih =>
      cases hr' with
      | atomic heffect' hnext' =>
          rw [heffect] at heffect'
          cases heffect'
          exact ih hnext'
      | call heffect' | callHalts heffect' | halt heffect' =>
          rw [heffect] at heffect'
          cases heffect'
  | call heffect _ _ ihBody ih =>
      cases hr' with
      | call heffect' hbody' hnext' =>
          rw [heffect] at heffect'
          cases heffect'
          cases ihBody hbody'
          exact ih hnext'
      | callHalts heffect' hbody' =>
          rw [heffect] at heffect'
          cases heffect'
          cases ihBody hbody'
      | atomic heffect' | halt heffect' =>
          rw [heffect] at heffect'
          cases heffect'
  | callHalts heffect _ ih =>
      cases hr' with
      | call heffect' hbody' =>
          rw [heffect] at heffect'
          cases heffect'
          cases ih hbody'
      | callHalts heffect' hbody' =>
          rw [heffect] at heffect'
          cases heffect'
          cases ih hbody'
          rfl
      | atomic heffect' | halt heffect' =>
          rw [heffect] at heffect'
          cases heffect'
  | halt heffect =>
      cases hr' with
      | halt heffect' =>
          rw [heffect] at heffect'
          cases heffect'
          rfl
      | atomic heffect' | call heffect' | callHalts heffect' =>
          rw [heffect] at heffect'
          cases heffect'

section Reachable

variable [DecidableEq H] [DecidableEq C]

/-- Every step is one of this hart. -/
theorem stepsOf {next : α → Program I Empty}
    (hrun : Alone P h program w (.ok (value, w'))) {m : Config I H C W}
    (hworld : m.world = w) (hcode : m.code h = program >>= next) :
    Relation.ReflTransGen (StepOf P h) m { m with world := w', code := Function.update m.code h (next value) } := by
  generalize hr : Except.ok (value, w') = result at hrun
  induction hrun generalizing m w' with
  | done value w =>
      cases hr
      have hsame : Function.update m.code h (next value) = m.code := by
        rw [Function.update_eq_self_iff]
        exact hcode.symm
      rw [hsame, ← hworld]
  | @atomic α β i rest act w r heffect _ ih =>
      subst hworld
      have htail := ih (m := { m with
        world := (act h m.world).2
        code := Function.update m.code h (rest (act h m.world).1 >>= next) })
         rfl (Function.update_self ..) hr
      simp only [Function.update_idem] at htail
      exact .head (.atomic hcode heffect) htail
  | @call α β i rest body w w₁ answer r heffect _ _ ihBody ih =>
      subst hworld
      have hbody : Relation.ReflTransGen (StepOf P h)
          ⟨m.world, Function.update m.code h
            (body >>= fun answer => rest answer >>= next), m.saved⟩
          ⟨w₁, Function.update (Function.update m.code h
            (body >>= fun answer => rest answer >>= next)) h (rest answer >>= next),
            m.saved⟩ :=
        ihBody (m := ⟨m.world, Function.update m.code h
          (body >>= fun answer => rest answer >>= next), m.saved⟩) rfl
          (Function.update_self ..) rfl
      have htail := ih (m := { m with
        world := w₁
        code := Function.update m.code h (rest answer >>= next) })
        rfl (Function.update_self ..) hr
      simp only [Function.update_idem] at hbody htail
      exact .head (.call hcode heffect) (hbody.trans htail)
  | callHalts => cases hr
  | halt => cases hr

theorem reachable {next : α → Program I Empty}
    (hrun : Alone P h program w (.ok (value, w'))) {m : Config I H C W}
    (hworld : m.world = w) (hcode : m.code h = program >>= next) :
    Reachable P m { m with world := w', code := Function.update m.code h (next value) } :=
  (hrun.stepsOf hworld hcode).lift id fun _ _ => StepOf.step

end Reachable

end Alone

/-! ## Machines with one hart -/

section Lone

variable [DecidableEq C] {P : Platform I Unit C W} {w w' : W} {saved : C → Program I Empty}

/-- The one hart executes `code`. -/
def lone (w : W) (code : Program I Empty) (saved : C → Program I Empty) : Config I Unit C W :=
  ⟨w, fun _ => code, saved⟩

omit [DecidableEq C] in
theorem lone_update (w : W) (code code' : Program I Empty) :
    (⟨w, Function.update (fun _ => code) () code', saved⟩ : Config I Unit C W) =
      lone w code' saved := by
  have hcode : Function.update (fun _ : Unit => code) () code' = fun _ => code' := by
    funext u
    cases u
    exact Function.update_self ..
  rw [hcode]
  rfl

theorem lone_next {m : Config I Unit C W} {code code' : Program I Empty}
    (hreach : Reachable P m ⟨w, Function.update (fun _ => code) () code', saved⟩) :
    Reachable P m (lone w code' saved) := by
  rwa [lone_update] at hreach

theorem leads_alone {program : Program I α} {value : α} {next : α → Program I Empty}
    (hrun : Alone P () program w (.ok (value, w'))) :
    Reachable P (lone w (program >>= next) saved) (lone w' (next value) saved) :=
  lone_next (hrun.reachable (m := lone w (program >>= next) saved) rfl rfl)

theorem leads_call {i : I β} {body : Program I β} {next : β → Program I Empty}
    (hbody : P.effect i = .call body) :
    Reachable P (lone w (Program.perform i >>= next) saved) (lone w (body >>= next) saved) :=
  lone_next (.single (.call (m := lone w (Program.perform i >>= next) saved) () rfl hbody))

theorem leads_choice {i : I β} {next : β → Program I Empty} (hchoose : P.effect i = .choose)
    (answer : β) :
    Reachable P (lone w (Program.perform i >>= next) saved) (lone w (next answer) saved) :=
  lone_next (.single (.choose (m := lone w (Program.perform i >>= next) saved) () answer rfl
    hchoose))

theorem leads_switch {i : I β} {old new : C} {transfer : Unit → W → W} {answer : β}
    {next : β → Program I Empty} (hswitch : P.effect i = .switch old new transfer answer) :
    Reachable P (lone w (Program.perform i >>= next) saved)
      (lone (transfer () w) (P.resumed saved new (transfer () w))
        (Function.update saved old (next answer))) :=
  lone_next (.single (.switch (m := lone w (Program.perform i >>= next) saved) () rfl hswitch))

end Lone

end Xv6Kernel.Foundation
