import Xv6Kernel.Foundation.Alone
import Xv6Kernel.Foundation.Returning

/-!
# A call that stays on its hart

`Staying` follows one call of a hart among others until nothing is left of it, for calls
in which the hart does not switch to another context.
-/

namespace Xv6Kernel.Foundation

variable {I : Type → Type 1} {H C W : Type} {α β : Type}

section Steps

variable [DecidableEq H] [DecidableEq C] {P : Platform I H C W} {h h' : H}
  {m m' : Config I H C W}

theorem Logic.Good.rely {L : Logic P} (verified : L.Verified) (good : L.Good m)
    (hstep : StepOf P h' m m') (hne : h ≠ h') :
    m'.world = m.world ∨ L.Rely h m.world m'.world := by
  cases hstep with
  | atomic hcode heffect =>
    have hdoes := good.does hcode
    simp only [Logic.Does, heffect] at hdoes
    exact .inr (hdoes.1.rely h hne)
  | call | choose => exact .inl rfl
  | switch hcode heffect =>
    have hdoes := good.does hcode
    simp only [Logic.Does, heffect] at hdoes
    exact .inr (hdoes.1.rely h hne)
  | trap htrap => exact .inr ((verified.handler good.inv htrap).1.rely h hne)

end Steps

section Staying

variable [DecidableEq H] [DecidableEq C] (P : Platform I H C W) (h : H)
  (rest : α → Program I Empty)

/-- What is left in `m` of the call that the hart `h` has begun as `call` in `m₀`. -/
inductive Staying (m₀ : Config I H C W) (call : Program I α) :
    Config I H C W → Program I α → Prop where
  | start : Staying m₀ call m₀ call
  | atomic {m : Config I H C W} {β : Type} {i : I β} {next : β → Program I α} {act : H → W → β × W}
      (before : Staying m₀ call m (.step i next)) (heffect : P.effect i = .atomic act) :
      Staying m₀ call
        { m with
          world := (act h m.world).2
          code := Function.update m.code h (next (act h m.world).1 >>= rest) }
        (next (act h m.world).1)
  | call {m : Config I H C W} {β : Type} {i : I β} {next : β → Program I α} {body : Program I β}
      (before : Staying m₀ call m (.step i next)) (heffect : P.effect i = .call body) :
      Staying m₀ call
        { m with code := Function.update m.code h (body >>= next >>= rest) } (body >>= next)
  | choose {m : Config I H C W} {β : Type} {i : I β} {next : β → Program I α} (answer : β)
      (before : Staying m₀ call m (.step i next)) (heffect : P.effect i = .choose) :
      Staying m₀ call
        { m with code := Function.update m.code h (next answer >>= rest) } (next answer)
  | trap {m : Config I H C W} {β : Type} {i : I β} {next : β → Program I α} {w : W}
      (before : Staying m₀ call m (.step i next)) (htrap : P.trap h m.world w) :
      Staying m₀ call
        { m with
          world := w
          code := Function.update m.code h
            ((P.handler >>= fun _ => .step i next) >>= rest) }
        (P.handler >>= fun _ => .step i next)
  | other {m m' : Config I H C W} {left : Program I α} {h' : H}
      (before : Staying m₀ call m left) (hne : h ≠ h') (hstep : StepOf P h' m m') :
      Staying m₀ call m' left

end Staying

/-- What a hart does alone it may do in the middle of a call. -/
theorem Alone.staying [DecidableEq H] [DecidableEq C] {P : Platform I H C W} {h : H}
    {rest : β → Program I Empty} {program : Program I α} {next : α → Program I β} {value : α}
    {w w' : W} {m₀ m : Config I H C W} {call : Program I β}
    (hrun : Alone P h program w (.ok (value, w'))) (hworld : m.world = w)
    (hcode : m.code h = program >>= next >>= rest)
    (before : Staying P h rest m₀ call m (program >>= next)) :
    Staying P h rest m₀ call
      { m with world := w', code := Function.update m.code h (next value >>= rest) }
      (next value) := by
  generalize hr : Except.ok (value, w') = result at hrun
  induction hrun generalizing m w' with
  | done value w =>
    cases hr
    have hsame : Function.update m.code h (next value >>= rest) = m.code :=
      Function.update_eq_self_iff.mpr hcode.symm
    rw [hsame, ← hworld]
    exact before
  | @atomic α β i tail act w r heffect _ ih =>
    subst hworld
    have hlast := ih rfl (Function.update_self ..) (.atomic before heffect) hr
    simpa only [Function.update_idem] using hlast
  | @call α β i tail body w w₁ answer r heffect _ _ ihBody ih =>
    subst hworld
    have hbody := ihBody (m := { m with
      code := Function.update m.code h
        (body >>= (fun answer => tail answer >>= next) >>= rest) })
      rfl (Function.update_self ..) (.call before heffect) rfl
    have hlast := ih rfl (Function.update_self ..) hbody hr
    simpa only [Function.update_idem] using hlast
  | callHalts => cases hr
  | halt => cases hr

namespace Logic

variable {P : Platform I H C W} [DecidableEq H] [DecidableEq C] {L : Logic P} {h : H}
  {rest : α → Program I Empty} {m₀ m : Config I H C W} {call left : Program I α}
  {Q : α → H → W → Prop}

omit [DecidableEq C] in
theorem wlp_any {w : W} (hQ : ∀ value h' w', Q value h' w') : L.wlp call Q h w := by
  induction call generalizing h w with
  | done value => exact hQ value h w
  | step i next ih =>
    intro h' w' _ _
    unfold Leads
    cases P.effect i with
    | atomic act => exact fun _ => ih _
    | call body => exact fun _ answer _ _ _ _ => ih answer
    | switch old new transfer answer => exact fun _ _ _ _ _ _ _ => ih answer
    | choose => exact fun answer => ih answer
    | halt message => trivial

/-- The rest of the call is what the hart does next, and will lead into `Q`. -/
structure Stays (L : Logic P) (h : H) (rest : α → Program I Empty) (Q : α → H → W → Prop)
    (m : Config I H C W) (left : Program I α) : Prop where
  good : L.Good m
  code : m.code h = left >>= rest
  wlp : L.wlp left Q h m.world

omit [DecidableEq C] in
/-- The hart itself goes on. -/
private theorem Stays.ahead {m' : Config I H C W} {left' : Program I α} {w : W}
    (good : L.Good { m' with world := w, code := Function.update m'.code h (left' >>= rest) })
    (hwlp : L.wlp left' Q h w) :
    L.Stays h rest Q
      { m' with world := w, code := Function.update m'.code h (left' >>= rest) } left' :=
  ⟨good, Function.update_self .., hwlp⟩

/-- At every point of a call what is left of it leads into what the call was to reach, if
what it reaches is nothing that the other harts change. -/
theorem Stays.staying (verified : L.Verified)
    (hQ : ∀ {value w w'}, L.Inv w → L.Inv w' → Q value h w → L.Rely h w w' → Q value h w')
    (stays : L.Stays h rest Q m₀ call) (staying : Staying P h rest m₀ call m left) :
    L.Stays h rest Q m left := by
  induction staying with
  | start => exact stays
  | @atomic m _ i next act before heffect ih =>
    have hcode : m.code h = .step i (fun answer => next answer >>= rest) := ih.code
    have hdoes := ih.good.does hcode
    have hleads := ih.wlp h m.world .refl ih.good.inv
    simp only [Does, heffect] at hdoes
    simp only [Leads, heffect] at hleads
    exact .ahead (ih.good.step verified (.atomic h hcode heffect)) (hleads hdoes.1)
  | @call m _ i next body before heffect ih =>
    have hcode : m.code h = .step i (fun answer => next answer >>= rest) := ih.code
    have hdoes := ih.good.does hcode
    have hleads := ih.wlp h m.world .refl ih.good.inv
    simp only [Does, heffect] at hdoes
    simp only [Leads, heffect] at hleads
    have hstep := ih.good.step verified (.call h hcode heffect)
    have hassoc : (body >>= fun answer => next answer >>= rest) = body >>= next >>= rest :=
      (bind_assoc ..).symm
    rw [hassoc] at hstep
    refine .ahead (w := m.world) hstep ((wlp_bind ..).mpr ?_)
    refine wlp_mono ih.good.inv (hleads hdoes.1) ?_
    exact wlp_of_wp (verified.call heffect ih.good.inv hdoes.1)
  | @choose m _ i next answer before heffect ih =>
    have hcode : m.code h = .step i (fun answer => next answer >>= rest) := ih.code
    have hleads := ih.wlp h m.world .refl ih.good.inv
    simp only [Leads, heffect] at hleads
    exact .ahead (w := m.world) (ih.good.step verified (.choose h answer hcode heffect))
      (hleads answer)
  | @trap m _ i next w before htrap ih =>
    obtain ⟨guarantee, hhandler⟩ := verified.handler ih.good.inv htrap
    have hstep := ih.good.step verified (.trap h htrap)
    have hassoc : (P.handler >>= fun _ => m.code h) =
        (P.handler >>= fun _ => .step i next) >>= rest := by
      rw [ih.code]
      exact (bind_assoc ..).symm
    rw [hassoc] at hstep
    refine .ahead hstep ((wlp_bind ..).mpr ?_)
    refine wlp_mono guarantee.inv (fun _ h' w' hinv hpreempt => ?_) (wlp_of_wp hhandler)
    exact wlp_env ih.wlp (.preempt .refl htrap hpreempt hinv)
  | @other m m' left h' before hne hstep ih =>
    have good' := ih.good.step verified hstep.step
    refine ⟨good', (hstep.code_of_ne hne).trans ih.code, ?_⟩
    rcases ih.good.rely verified hstep hne with hsame | hrely
    · rw [hsame]
      exact ih.wlp
    · cases left with
      | done value => exact hQ ih.good.inv good'.inv ih.wlp hrely
      | step i next => exact wlp_env ih.wlp (.rely .refl hrely good'.inv)

end Logic

end Xv6Kernel.Foundation
