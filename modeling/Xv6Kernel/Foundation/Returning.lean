import Xv6Kernel.Foundation.Alone

/-!
# A call, from its beginning to its return

`During` follows one call that a context makes on the only hart, over traps and
switches to other contexts, until nothing is left of it.  `wlp` is the weakest liberal
precondition in a `Logic`: what a program does provided that it is safe, which is known
of everything that runs.
-/

namespace Xv6Kernel.Foundation

variable {I : Type → Type 1} {H C W : Type} {α β : Type}

namespace Logic

variable {P : Platform I H C W} (L : Logic P) [DecidableEq H]

/-- Executing one instruction on `h`, if it is fine, leads into `K`. -/
def Leads (i : I β) (K : β → H → W → Prop) (h : H) (w : W) : Prop :=
  match P.effect i with
  | .atomic act => L.Guarantee h w (act h w).2 → K (act h w).1 h (act h w).2
  | .call _ => L.pre i h w →
      ∀ answer h' w', L.Inv w' → L.post i h w answer h' w' → K answer h' w'
  | .switch old new transfer answer => L.Switches old new h w (transfer h w) →
      ∀ h' w', L.Inv w' → L.Resume old h' w' → L.Keep old (transfer h w) w' →
        P.fresh old w' = none → K answer h' w'
  | .choose => ∀ answer, K answer h w
  | .halt _ => True

def wlp : Program I α → (α → H → W → Prop) → H → W → Prop
  | .done value, Q => fun h w => Q value h w
  | .step i next, Q => fun h w =>
      ∀ h' w', L.Env h w h' w' → L.Inv w' →
        L.Leads i (fun answer => wlp (next answer) Q) h' w'

variable {L}

theorem Leads.mono {i : I β} {K K' : β → H → W → Prop} {h : H} {w : W}
    (hmono : ∀ answer h' w', L.Inv w' → K answer h' w' → K' answer h' w')
    (hinv : L.Inv w) (leads : L.Leads i K h w) : L.Leads i K' h w := by
  unfold Leads at leads ⊢
  cases heffect : P.effect i with
  | atomic act =>
      rw [heffect] at leads
      exact fun guarantee => hmono _ _ _ guarantee.inv (leads guarantee)
  | call body =>
      rw [heffect] at leads
      exact fun hpre answer h' w' hinv' hpost =>
        hmono _ _ _ hinv' (leads hpre answer h' w' hinv' hpost)
  | switch old new transfer answer =>
      rw [heffect] at leads
      exact fun switches h' w' hinv' hresume hkeep hfresh =>
        hmono _ _ _ hinv' (leads switches h' w' hinv' hresume hkeep hfresh)
  | choose =>
      rw [heffect] at leads
      exact fun answer => hmono _ _ _ hinv (leads answer)
  | halt message => trivial

theorem wlp_mono {program : Program I α} {Q Q' : α → H → W → Prop} {h : H} {w : W}
    (hinv : L.Inv w) (hmono : ∀ value h' w', L.Inv w' → Q value h' w' → Q' value h' w')
    (hwlp : L.wlp program Q h w) : L.wlp program Q' h w := by
  induction program generalizing h w with
  | done value => exact hmono value h w hinv hwlp
  | step i next ih =>
      intro h' w' henv hinv'
      exact (hwlp h' w' henv hinv').mono (fun answer h'' w'' hinv'' hnext =>
        ih answer hinv'' hnext) hinv'

theorem wlp_bind (program : Program I α) (rest : α → Program I β) (Q : β → H → W → Prop)
    (h : H) (w : W) :
    L.wlp (program >>= rest) Q h w ↔
      L.wlp program (fun value => L.wlp (rest value) Q) h w := by
  induction program generalizing h w with
  | done value => rfl
  | step i next ih =>
      have hnext : (fun answer => L.wlp (next answer >>= rest) Q) =
          fun answer => L.wlp (next answer) fun value => L.wlp (rest value) Q := by
        funext answer h' w'
        exact propext (ih answer h' w')
      simp only [Program.step_bind, wlp, hnext]

/-- A program that is not done may be looked at any time later. -/
theorem wlp_env {i : I β} {next : β → Program I α} {Q : α → H → W → Prop} {h h' : H}
    {w w' : W} (hwlp : L.wlp (.step i next) Q h w) (henv : L.Env h w h' w') :
    L.wlp (.step i next) Q h' w' :=
  fun h'' w'' henv' hinv => hwlp h'' w'' (henv.trans henv') hinv

theorem wlp_of_wp {program : Program I α} {Q : α → H → W → Prop} {h : H} {w : W}
    (hwp : L.wp program Q h w) : L.wlp program Q h w := by
  induction program generalizing h w with
  | done value => exact hwp
  | step i next ih =>
      intro h' w' henv hinv
      have hdoes := hwp h' w' henv hinv
      unfold Does at hdoes
      unfold Leads
      cases heffect : P.effect i with
      | atomic act =>
          rw [heffect] at hdoes
          exact fun _ => ih _ hdoes.2
      | call body =>
          rw [heffect] at hdoes
          exact fun _ answer h'' w'' hinv' hpost => ih _ (hdoes.2 answer h'' w'' hinv' hpost)
      | switch old new transfer answer =>
          rw [heffect] at hdoes
          exact fun _ h'' w'' hinv' hresume hkeep hfresh =>
            ih _ (hdoes.2 h'' w'' hinv' hresume hkeep hfresh)
      | choose =>
          rw [heffect] at hdoes
          exact fun answer => ih _ (hdoes answer)
      | halt message => trivial

end Logic

section During

variable [DecidableEq H] [DecidableEq C] (P : Platform I H C W) (c : C) (h : H)
  (rest : α → Program I Empty)

/-- What is left in `m` of the call that the context `c` has begun as `call` in `m₀`. -/
inductive During (m₀ : Config I H C W) (call : Program I α) :
    Config I H C W → Program I α → Prop where
  | start : During m₀ call m₀ call
  | atomic {m : Config I H C W} {β : Type} {i : I β} {next : β → Program I α} {act : H → W → β × W}
      (before : During m₀ call m (.step i next)) (hcur : P.current m.world h = c)
      (heffect : P.effect i = .atomic act) :
      During m₀ call
        { m with
          world := (act h m.world).2
          code := Function.update m.code h (next (act h m.world).1 >>= rest) }
        (next (act h m.world).1)
  | call {m : Config I H C W} {β : Type} {i : I β} {next : β → Program I α} {body : Program I β}
      (before : During m₀ call m (.step i next)) (hcur : P.current m.world h = c)
      (heffect : P.effect i = .call body) :
      During m₀ call
        { m with code := Function.update m.code h (body >>= next >>= rest) } (body >>= next)
  | choose {m : Config I H C W} {β : Type} {i : I β} {next : β → Program I α} (answer : β)
      (before : During m₀ call m (.step i next)) (hcur : P.current m.world h = c)
      (heffect : P.effect i = .choose) :
      During m₀ call
        { m with code := Function.update m.code h (next answer >>= rest) } (next answer)
  | leave {m : Config I H C W} {β : Type} {i : I β} {next : β → Program I α} {new : C}
      {transfer : H → W → W} {answer : β}
      (before : During m₀ call m (.step i next)) (hcur : P.current m.world h = c)
      (heffect : P.effect i = .switch c new transfer answer) :
      During m₀ call
        { world := transfer h m.world
          code := Function.update m.code h (P.resumed m.saved new (transfer h m.world))
          saved := Function.update m.saved c (next answer >>= rest) }
        (next answer)
  | trap {m : Config I H C W} {β : Type} {i : I β} {next : β → Program I α} {w : W}
      (before : During m₀ call m (.step i next)) (hcur : P.current m.world h = c)
      (htrap : P.trap h m.world w) :
      During m₀ call
        { m with
          world := w
          code := Function.update m.code h
            ((P.handler >>= fun _ => .step i next) >>= rest) }
        (P.handler >>= fun _ => .step i next)
  /-- A step of another context, which may come back to where `c` was left. -/
  | other {m m' : Config I H C W} {left : Program I α} (before : During m₀ call m left)
      (hcur : P.current m.world h ≠ c) (hstep : Step P m m')
      (hback : P.current m'.world h = c → P.fresh c m'.world = none) :
      During m₀ call m' left

end During

namespace Logic

variable {P : Platform I H C W} [DecidableEq H] {L : Logic P} {h : H} {c : C}
  {rest : α → Program I Empty} {m₀ m m' : Config I H C W} {call left : Program I α}
  {Q : α → H → W → Prop}

/-- The rest of the call is where the context has been left, and will lead into `Q`. -/
structure Underway (L : Logic P) (c : C) (h : H) (rest : α → Program I Empty)
    (Q : α → H → W → Prop) (m : Config I H C W) (left : Program I α) : Prop where
  good : L.Good m
  running : P.current m.world h = c →
    m.code h = left >>= rest ∧ L.wlp left Q h m.world
  suspended : P.current m.world h ≠ c → m.saved c = left >>= rest ∧
    ∀ h' w', L.Inv w' → L.Resume c h' w' → L.Keep c m.world w' → P.fresh c w' = none →
      L.wlp left Q h' w'

theorem Underway.leads (underway : L.Underway c h rest Q m left)
    (hcur : P.current m.world h = c) {i : I β} {next : β → Program I α}
    (hleft : left = .step i next) :
    m.code h = .step i (fun answer => next answer >>= rest) ∧
      L.Leads i (fun answer => L.wlp (next answer) Q) h m.world := by
  subst hleft
  obtain ⟨hcode, hwlp⟩ := underway.running hcur
  exact ⟨hcode, hwlp h m.world .refl underway.good.inv⟩

/-- The program of the context goes on, and the context stays. -/
private theorem Underway.ahead {w : W} {left' : Program I α}
    (hcur : P.current m.world h = c) (hcurrent : P.current w = P.current m.world)
    (good : L.Good { m with world := w, code := Function.update m.code h (left' >>= rest) })
    (hwlp : L.wlp left' Q h w) :
    L.Underway c h rest Q
      { m with world := w, code := Function.update m.code h (left' >>= rest) } left' where
  good := good
  running _ := ⟨Function.update_self .., hwlp⟩
  suspended hne := absurd (by rw [hcurrent]; exact hcur) hne

variable [DecidableEq C]

/-- The program of another context runs. -/
private theorem Underway.aside (verified : L.Verified) (lone : ∀ h' : H, h' = h)
    (underway : L.Underway c h rest Q m left) (hcur : P.current m.world h ≠ c)
    (hstep : Step P m m') (hback : P.current m'.world h = c → P.fresh c m'.world = none) :
    L.Underway c h rest Q m' left := by
  have good := underway.good
  have good' := good.step verified hstep
  obtain ⟨hsaved, hresume⟩ := underway.suspended hcur
  have hall : ∀ h', P.current m.world h' ≠ c := fun h' => lone h' ▸ hcur
  have stay : ∀ {w code}, L.Guarantee h m.world w →
      L.Good ⟨w, code, m.saved⟩ → L.Underway c h rest Q ⟨w, code, m.saved⟩ left := by
    intro w code guarantee good''
    refine ⟨good'', fun heq => absurd ?_ hcur, fun _ => ⟨hsaved, ?_⟩⟩
    · rw [← guarantee.current]
      exact heq
    · intro h' w' hinv hres hkeep hfresh
      exact hresume h' w' hinv hres (L.keep_trans (guarantee.keep c hall) hkeep) hfresh
  cases hstep with
  | atomic h₁ hcode heffect =>
      obtain rfl := lone h₁
      have hdoes := good.does hcode
      simp only [Does, heffect] at hdoes
      exact stay hdoes.1 good'
  | call h₁ hcode heffect | choose h₁ answer hcode heffect =>
      exact ⟨good', fun heq => absurd heq hcur, fun _ => ⟨hsaved, hresume⟩⟩
  | @switch h₁ _ i next old new transfer answer hcode heffect =>
      obtain rfl := lone h₁
      have hdoes := good.does hcode
      simp only [Does, heffect] at hdoes
      have switches := hdoes.1
      have hnew : P.current (transfer h₁ m.world) h₁ = new := by
        rw [switches.current, Function.update_self]
      have hold : c ≠ old := fun heq => hcur (switches.from_old.trans heq.symm)
      have hkept := switches.keep c hall
      refine ⟨good', fun heq => ?_, fun _ => ⟨?_, ?_⟩⟩
      · obtain rfl : new = c := hnew.symm.trans heq
        have hfresh := hback heq
        refine ⟨?_, hresume h₁ _ switches.inv switches.resume hkept hfresh⟩
        simpa [Platform.resumed, hfresh] using hsaved
      · simpa [hold] using hsaved
      · intro h' w' hinv hres hkeep hfresh
        exact hresume h' w' hinv hres (L.keep_trans hkept hkeep) hfresh
  | trap h₁ htrap =>
      obtain rfl := lone h₁
      exact stay (verified.handler good.inv htrap).1 good'

/-- At every point of a call what is left of it leads into what the call was to reach. -/
theorem Underway.during (verified : L.Verified) (lone : ∀ h' : H, h' = h)
    (underway : L.Underway c h rest Q m₀ call)
    (during : During P c h rest m₀ call m left) : L.Underway c h rest Q m left := by
  induction during with
  | start => exact underway
  | @atomic m _ i next act before hcur heffect ih =>
      obtain ⟨hcode, hleads⟩ := ih.leads hcur rfl
      have hdoes := ih.good.does hcode
      simp only [Does, heffect] at hdoes
      simp only [Leads, heffect] at hleads
      exact .ahead hcur hdoes.1.current (ih.good.step verified (.atomic h hcode heffect))
        (hleads hdoes.1)
  | @call m _ i next body before hcur heffect ih =>
      obtain ⟨hcode, hleads⟩ := ih.leads hcur rfl
      have hdoes := ih.good.does hcode
      simp only [Does, heffect] at hdoes
      simp only [Leads, heffect] at hleads
      have hstep := ih.good.step verified (.call h hcode heffect)
      have hassoc : (body >>= fun answer => next answer >>= rest) = body >>= next >>= rest :=
        (bind_assoc ..).symm
      rw [hassoc] at hstep
      refine .ahead (w := m.world) hcur rfl hstep ((wlp_bind ..).mpr ?_)
      refine wlp_mono ih.good.inv (hleads hdoes.1) ?_
      exact wlp_of_wp (verified.call heffect ih.good.inv hdoes.1)
  | @choose m _ i next answer before hcur heffect ih =>
      obtain ⟨hcode, hleads⟩ := ih.leads hcur rfl
      simp only [Leads, heffect] at hleads
      exact .ahead (w := m.world) hcur rfl
        (ih.good.step verified (.choose h answer hcode heffect)) (hleads answer)
  | @leave m _ i next new transfer answer before hcur heffect ih =>
      obtain ⟨hcode, hleads⟩ := ih.leads hcur rfl
      have hdoes := ih.good.does hcode
      simp only [Does, heffect] at hdoes
      simp only [Leads, heffect] at hleads
      have switches := hdoes.1
      have hnew : P.current (transfer h m.world) h = new := by
        rw [switches.current, Function.update_self]
      have hne : P.current (transfer h m.world) h ≠ c := by
        rw [hnew]
        exact fun heq => switches.new_suspended h (hcur.trans heq.symm)
      exact ⟨ih.good.step verified (.switch h hcode heffect), fun heq => absurd heq hne,
        fun _ => ⟨Function.update_self .., hleads switches⟩⟩
  | @trap m _ i next w before hcur htrap ih =>
      obtain ⟨hcode, hwlp⟩ := ih.running hcur
      obtain ⟨guarantee, hhandler⟩ := verified.handler ih.good.inv htrap
      have hstep := ih.good.step verified (.trap h htrap)
      have hassoc : (P.handler >>= fun _ => m.code h) =
          (P.handler >>= fun _ => .step i next) >>= rest := by
        rw [hcode]
        exact (bind_assoc ..).symm
      rw [hassoc] at hstep
      refine .ahead hcur guarantee.current hstep ((wlp_bind ..).mpr ?_)
      refine wlp_mono guarantee.inv (fun _ h' w' hinv hpreempt => ?_) (wlp_of_wp hhandler)
      exact wlp_env hwlp (.preempt .refl htrap hpreempt hinv)
  | other before hcur hstep hback ih =>
      exact ih.aside verified lone hcur hstep hback

end Logic

/-- What a hart does alone it may do in the middle of a call. -/
theorem Alone.during [DecidableEq H] [DecidableEq C] {P : Platform I H C W} {L : Logic P} {h : H}
    {c : C} {rest : β → Program I Empty} {program : Program I α} {next : α → Program I β} {value : α}
    {w w' : W} {m₀ m : Config I H C W} {call : Program I β} (verified : L.Verified)
    (hrun : Alone P h program w (.ok (value, w'))) (hworld : m.world = w) (good : L.Good m)
    (hcur : P.current m.world h = c) (hcode : m.code h = program >>= next >>= rest)
    (before : During P c h rest m₀ call m (program >>= next)) :
    During P c h rest m₀ call
        { m with world := w', code := Function.update m.code h (next value >>= rest) }
        (next value) ∧
      L.Good { m with world := w', code := Function.update m.code h (next value >>= rest) } ∧
      P.current w' h = c := by
  generalize hr : Except.ok (value, w') = result at hrun
  induction hrun generalizing m w' with
  | done value w =>
    cases hr
    have hsame : Function.update m.code h (next value >>= rest) = m.code :=
      Function.update_eq_self_iff.mpr hcode.symm
    rw [hsame, ← hworld]
    exact ⟨before, good, hcur⟩
  | @atomic α β i tail act w r heffect _ ih =>
    subst hworld
    have hdoes := good.does hcode
    simp only [Logic.Does, heffect] at hdoes
    have hcur' : P.current (act h m.world).2 h = c := hdoes.1.current ▸ hcur
    have good' := good.step verified (.atomic h hcode heffect)
    have hlast := ih rfl good' hcur' (Function.update_self ..) (.atomic before hcur heffect) hr
    simpa only [Function.update_idem] using hlast
  | @call α β i tail body w w₁ answer r heffect _ _ ihBody ih =>
    subst hworld
    let m₁ : Config I H C W := { m with
      code := Function.update m.code h
        (body >>= (fun answer => tail answer >>= next) >>= rest) }
    have hassoc : body >>= (fun answer => tail answer >>= next) >>= rest =
        body >>= fun answer => tail answer >>= next >>= rest := bind_assoc ..
    have good' : L.Good m₁ := by
      simp only [m₁, hassoc]
      exact good.step verified (.call h hcode heffect)
    obtain ⟨hbody, good₁, hcur₁⟩ := ihBody (m := m₁) rfl good' hcur (Function.update_self ..)
      (.call before hcur heffect) rfl
    have hlast := ih rfl good₁ hcur₁ (Function.update_self ..) hbody hr
    simpa only [m₁, Function.update_idem] using hlast
  | callHalts => cases hr
  | halt => cases hr

theorem Alone.during_call [DecidableEq H] [DecidableEq C] {P : Platform I H C W} {L : Logic P}
    {h : H} {c : C} {rest : α → Program I Empty} {value : α} {w' : W} {m : Config I H C W}
    {call : Program I α} (verified : L.Verified)
    (hrun : Alone P h call m.world (.ok (value, w'))) (good : L.Good m)
    (hcur : P.current m.world h = c) (hcode : m.code h = call >>= rest) :
    During P c h rest m call
        { m with world := w', code := Function.update m.code h (rest value) } (.done value) ∧
      P.current w' h = c := by
  have hdone : call >>= Program.done = call := bind_pure call
  have before : During P c h rest m call m (call >>= Program.done) := by
    rw [hdone]
    exact .start
  have hcode' : m.code h = call >>= Program.done >>= rest := by
    rw [hdone]
    exact hcode
  obtain ⟨during, -, hcur'⟩ := Alone.during verified hrun rfl good hcur hcode' before
  exact ⟨during, hcur'⟩

end Xv6Kernel.Foundation
