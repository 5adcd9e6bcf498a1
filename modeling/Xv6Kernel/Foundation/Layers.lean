import Xv6Kernel.Foundation.Alone

/-!
# A second logic over a first

A `Logic` that is known to be sound says where the contexts of the only hart are and what
every step may do.  A `Layer` over it proves more about the same programs, along a history
of its own: whatever the first logic guarantees of a step may be assumed.
-/

namespace Xv6Kernel.Foundation

variable {I : Type → Type 1} {H C W G : Type} {α β : Type}

/-- The machine whose traps are only taken where `may` holds. -/
def Platform.restrict (P : Platform I H C W) (may : W → Prop) : Platform I H C W :=
  { P with trap := fun h w w' => may w ∧ P.trap h w w' }

section Restrict

variable [DecidableEq H] [DecidableEq C] {P : Platform I H C W} {may : W → Prop}
  {m m' : Config I H C W}

theorem Step.of_restrict (hstep : Step (P.restrict may) m m') : Step P m m' := by
  cases hstep with
  | atomic h hcode heffect => exact .atomic h hcode heffect
  | call h hcode heffect => exact .call h hcode heffect
  | choose h answer hcode heffect => exact .choose h answer hcode heffect
  | switch h hcode heffect => exact .switch h hcode heffect
  | trap h htrap => exact .trap h htrap.2

theorem Step.restrict (hstep : Step P m m') (hmay : ∀ w, may w) : Step (P.restrict may) m m' := by
  cases hstep with
  | atomic h hcode heffect => exact .atomic h hcode heffect
  | call h hcode heffect => exact .call h hcode heffect
  | choose h answer hcode heffect => exact .choose h answer hcode heffect
  | switch h hcode heffect => exact .switch h hcode heffect
  | trap h htrap => exact .trap h ⟨hmay _, htrap⟩

theorem Reachable.restrict (hreach : Reachable P m m') (hmay : ∀ w, may w) :
    Reachable (P.restrict may) m m' := by
  induction hreach with
  | refl => exact .refl
  | tail _ hstep ih => exact ih.tail (hstep.restrict hmay)

omit [DecidableEq H] [DecidableEq C] in
/-- What a hart does without a trap it also does where there are fewer. -/
theorem Alone.restrict {h : H} {program : Program I α} {w : W} {r : Except String (α × W)}
    (hrun : Alone P h program w r) : Alone (P.restrict may) h program w r := by
  induction hrun with
  | done value w => exact .done value w
  | atomic heffect _ ih => exact .atomic heffect ih
  | call heffect _ _ ihBody ih => exact .call heffect ihBody ih
  | callHalts heffect _ ih => exact .callHalts heffect ih
  | halt heffect => exact .halt heffect

end Restrict

structure Layer {P : Platform I Unit C W} (L : Logic P) (G : Type) where
  /-- The history after a step of the world. -/
  next : W → W → G → G
  Inv : W → G → Prop
  /-- Where a trap is taken. -/
  May : W → Prop
  /-- What all other contexts leave alone for `c`. -/
  Keep : C → W → G → W → G → Prop
  /-- What holds when the hart switches to `c`. -/
  Resume : C → W → G → Prop
  /-- What a trap does to the program it interrupts. -/
  Preempt : W → G → W → G → Prop
  pre : ∀ {β : Type}, I β → W → G → Prop
  post : ∀ {β : Type}, I β → W → G → β → W → G → Prop
  next_self : ∀ w g, next w w g = g
  keep_trans : ∀ {c w g w' g' w'' g''},
    Keep c w g w' g' → Keep c w' g' w'' g'' → Keep c w g w'' g''

namespace Layer

variable {P : Platform I Unit C W} {L : Logic P} (D : Layer L G)

/-- What may happen before the next instruction. -/
inductive Pause (w : W) (g : G) : W → G → Prop where
  | refl : Pause w g w g
  | trap {w₁ w₂ wt : W} {g₁ g₂ : G} (before : Pause w g w₁ g₁) (may : D.May w₁)
      (htrap : P.trap () w₁ wt) (handled : L.Preempt () w₁ () w₂)
      (own : D.Preempt w₁ g₁ w₂ g₂) (inv : L.Inv w₂) (inv' : D.Inv w₂ g₂) : Pause w g w₂ g₂

/-- What a step owes to the invariant and to the other contexts. -/
structure Keeps (w : W) (g : G) (w' : W) (g' : G) : Prop where
  inv : D.Inv w' g'
  keep : ∀ c, P.current w () ≠ c → D.Keep c w g w' g'

/-- Executing one instruction is fine and leads into `K`. -/
def Does (i : I β) (K : β → W → G → Prop) (w : W) (g : G) : Prop :=
  match P.effect i with
  | .atomic act => L.Guarantee () w (act () w).2 →
      D.Keeps w g (act () w).2 (D.next w (act () w).2 g) ∧
        K (act () w).1 (act () w).2 (D.next w (act () w).2 g)
  | .call _ => L.pre i () w → D.pre i w g ∧
      ∀ answer w' g', L.Inv w' → D.Inv w' g' → L.post i () w answer () w' →
        D.post i w g answer w' g' → K answer w' g'
  | .switch old new transfer answer => L.Switches old new () w (transfer () w) →
      D.Keeps w g (transfer () w) (D.next w (transfer () w) g) ∧
        D.Resume new (transfer () w) (D.next w (transfer () w) g) ∧
        ∀ w' g', L.Inv w' → D.Inv w' g' → L.Resume old () w' → L.Keep old (transfer () w) w' →
          D.Resume old w' g' → D.Keep old (transfer () w) (D.next w (transfer () w) g) w' g' →
            P.fresh old w' = none → K answer w' g'
  | .choose => ∀ answer, K answer w g
  | .halt _ => True

def safe : Program I α → (α → W → G → Prop) → W → G → Prop
  | .done value, Q => fun w g => Q value w g
  | .step i next, Q => fun w g =>
      ∀ w' g', D.Pause w g w' g' → L.Inv w' → D.Inv w' g' →
        D.Does i (fun answer => safe (next answer) Q) w' g'

variable {D}

theorem Pause.trans {w w' w'' : W} {g g' g'' : G} (first : D.Pause w g w' g')
    (second : D.Pause w' g' w'' g'') : D.Pause w g w'' g'' := by
  induction second with
  | refl => exact first
  | trap _ may htrap handled own inv inv' ih => exact .trap ih may htrap handled own inv inv'

theorem Pause.env {w w' : W} {g g' : G} (pause : D.Pause w g w' g') : L.Env () w () w' := by
  induction pause with
  | refl => exact .refl
  | trap _ _ htrap handled _ inv _ ih => exact .preempt ih htrap handled inv

/-- Where no trap is taken the program goes on at once. -/
theorem Pause.still {w w' : W} {g g' : G} (pause : D.Pause w g w' g')
    (hoff : D.May w → ∀ wt, ¬ P.trap () w wt) : w' = w ∧ g' = g := by
  induction pause with
  | refl => exact ⟨rfl, rfl⟩
  | trap _ may htrap _ _ _ _ ih =>
      obtain ⟨rfl, rfl⟩ := ih
      exact absurd htrap (hoff may _)

theorem Does.mono {i : I β} {K K' : β → W → G → Prop} {w : W} {g : G} (inv : L.Inv w)
    (inv' : D.Inv w g)
    (hmono : ∀ answer w' g', L.Inv w' → D.Inv w' g' → K answer w' g' → K' answer w' g')
    (does : D.Does i K w g) : D.Does i K' w g := by
  unfold Does at does ⊢
  cases heffect : P.effect i with
  | atomic act =>
      rw [heffect] at does
      intro guarantee
      obtain ⟨keeps, hK⟩ := does guarantee
      exact ⟨keeps, hmono _ _ _ guarantee.inv keeps.inv hK⟩
  | call body =>
      rw [heffect] at does
      intro hpre
      obtain ⟨hpre', hK⟩ := does hpre
      exact ⟨hpre', fun answer w₁ g₁ hinv hinv' hpost hpost' =>
        hmono _ _ _ hinv hinv' (hK answer w₁ g₁ hinv hinv' hpost hpost')⟩
  | switch old new transfer answer =>
      rw [heffect] at does
      intro switches
      obtain ⟨keeps, hresume, hK⟩ := does switches
      exact ⟨keeps, hresume, fun w₁ g₁ hinv hinv' h₁ h₂ h₃ h₄ h₅ =>
        hmono _ _ _ hinv hinv' (hK w₁ g₁ hinv hinv' h₁ h₂ h₃ h₄ h₅)⟩
  | choose =>
      rw [heffect] at does
      exact fun answer => hmono _ _ _ inv inv' (does answer)
  | halt message => trivial

theorem safe_mono {program : Program I α} {Q Q' : α → W → G → Prop} {w : W} {g : G}
    (inv : L.Inv w) (inv' : D.Inv w g)
    (hmono : ∀ value w' g', L.Inv w' → D.Inv w' g' → Q value w' g' → Q' value w' g')
    (hsafe : D.safe program Q w g) : D.safe program Q' w g := by
  induction program generalizing w g with
  | done value => exact hmono value w g inv inv' hsafe
  | step i next ih =>
      intro w₁ g₁ pause inv₁ inv₁'
      exact (hsafe w₁ g₁ pause inv₁ inv₁').mono inv₁ inv₁' fun answer w₂ g₂ inv₂ inv₂' hnext =>
        ih answer inv₂ inv₂' hnext

theorem safe_bind (program : Program I α) (rest : α → Program I β) (Q : β → W → G → Prop)
    (w : W) (g : G) :
    D.safe (program >>= rest) Q w g ↔
      D.safe program (fun value => D.safe (rest value) Q) w g := by
  induction program generalizing w g with
  | done value => rfl
  | step i next ih =>
      have hnext : (fun answer => D.safe (next answer >>= rest) Q) =
          fun answer => D.safe (next answer) fun value => D.safe (rest value) Q := by
        funext answer w' g'
        exact propext (ih answer w' g')
      simp only [Program.step_bind, safe, hnext]

/-- A sequence, when the first part is known by itself. -/
theorem safe_seq {program : Program I α} {rest : α → Program I β} {R : α → W → G → Prop}
    {Q : β → W → G → Prop} {w : W} {g : G} (inv : L.Inv w) (inv' : D.Inv w g)
    (hprogram : D.safe program R w g)
    (hrest : ∀ value w' g', L.Inv w' → D.Inv w' g' → R value w' g' →
      D.safe (rest value) Q w' g') :
    D.safe (program >>= rest) Q w g :=
  (safe_bind ..).mpr (safe_mono inv inv' hrest hprogram)

/-- A program that never answers may be looked at any time later. -/
theorem safe_pause {program : Program I Empty} {Q : Empty → W → G → Prop} {w w' : W}
    {g g' : G} (hsafe : D.safe program Q w g) (pause : D.Pause w g w' g') :
    D.safe program Q w' g' := by
  cases program with
  | done value => exact value.elim
  | step i next => exact fun w₁ g₁ pause' => hsafe w₁ g₁ (pause.trans pause')

/-- What the first logic says of the program may be used at its end. -/
theorem safe_and {program : Program I α} {R : α → Unit → W → Prop} {Q : α → W → G → Prop}
    {w : W} {g : G} (hwp : L.wp program R () w) (hsafe : D.safe program Q w g) :
    D.safe program (fun value w' g' => R value () w' ∧ Q value w' g') w g := by
  induction program generalizing w g with
  | done value => exact ⟨hwp, hsafe⟩
  | step i next ih =>
      intro w₁ g₁ pause inv₁ inv₁'
      have hfirst := hwp () w₁ pause.env inv₁
      have does := hsafe w₁ g₁ pause inv₁ inv₁'
      unfold Logic.Does at hfirst
      unfold Does at does ⊢
      cases heffect : P.effect i with
      | atomic act =>
          rw [heffect] at hfirst does
          intro guarantee
          obtain ⟨keeps, hK⟩ := does guarantee
          exact ⟨keeps, ih _ hfirst.2 hK⟩
      | call body =>
          rw [heffect] at hfirst does
          intro hpre
          obtain ⟨hpre', hK⟩ := does hpre
          exact ⟨hpre', fun answer w₂ g₂ inv₂ inv₂' hpost hpost' =>
            ih _ (hfirst.2 answer () w₂ inv₂ hpost) (hK answer w₂ g₂ inv₂ inv₂' hpost hpost')⟩
      | switch old new transfer answer =>
          rw [heffect] at hfirst does
          intro switches
          obtain ⟨keeps, hresume, hK⟩ := does switches
          exact ⟨keeps, hresume, fun w₂ g₂ inv₂ inv₂' h₁ h₂ h₃ h₄ hfresh =>
            ih _ (hfirst.2 () w₂ inv₂ h₁ h₂ hfresh) (hK w₂ g₂ inv₂ inv₂' h₁ h₂ h₃ h₄ hfresh)⟩
      | choose =>
          rw [heffect] at hfirst does
          exact fun answer => ih _ (hfirst answer) (does answer)
      | halt message => trivial

/-- What is known of the program in several ways is known together. -/
theorem safe_forall {ι : Type} [Nonempty ι] {program : Program I α} {Q : ι → α → W → G → Prop}
    {w : W} {g : G} (hsafe : ∀ x, D.safe program (Q x) w g) :
    D.safe program (fun value w' g' => ∀ x, Q x value w' g') w g := by
  induction program generalizing w g with
  | done value => exact hsafe
  | step i next ih =>
      intro w₁ g₁ pause inv₁ inv₁'
      have does := fun x => hsafe x w₁ g₁ pause inv₁ inv₁'
      have x₀ : ι := Classical.arbitrary ι
      unfold Does at does ⊢
      cases heffect : P.effect i with
      | atomic act =>
          rw [heffect] at does
          exact fun guarantee => ⟨(does x₀ guarantee).1, ih _ fun x => (does x guarantee).2⟩
      | call body =>
          rw [heffect] at does
          exact fun hpre => ⟨(does x₀ hpre).1, fun answer w₂ g₂ inv₂ inv₂' hpost hpost' =>
            ih _ fun x => (does x hpre).2 answer w₂ g₂ inv₂ inv₂' hpost hpost'⟩
      | switch old new transfer answer =>
          rw [heffect] at does
          exact fun switches => ⟨(does x₀ switches).1, (does x₀ switches).2.1,
            fun w₂ g₂ inv₂ inv₂' h₁ h₂ h₃ h₄ hfresh => ih _ fun x =>
              (does x switches).2.2 w₂ g₂ inv₂ inv₂' h₁ h₂ h₃ h₄ hfresh⟩
      | choose =>
          rw [heffect] at does
          exact fun answer => ih _ fun x => does x answer
      | halt message => trivial

/-! ## Soundness -/

variable (D)

structure Sound : Prop where
  call : ∀ {β : Type} {i : I β} {body : Program I β} {w : W} {g : G},
    P.effect i = .call body → L.Inv w → D.Inv w g → L.pre i () w → D.pre i w g →
      D.safe body (fun answer w' g' => D.post i w g answer w' g') w g
  handler : ∀ {w wt : W} {g : G}, L.Inv w → D.Inv w g → D.May w → P.trap () w wt →
    D.Keeps w g wt (D.next w wt g) ∧
      D.safe P.handler (fun _ w' g' => D.Preempt w g w' g') wt (D.next w wt g)
  fresh : ∀ {c : C} {program : Program I Empty} {w : W} {g : G}, P.fresh c w = some program →
    L.Inv w → D.Inv w g → L.Resume c () w → D.Resume c w g →
      D.safe program (fun value _ _ => value.elim) w g

/-- The program of a suspended context is safe when it is resumed. -/
def Waits (c : C) (program : Program I Empty) (w : W) (g : G) : Prop :=
  ∀ w' g', L.Inv w' → D.Inv w' g' → L.Resume c () w' → L.Keep c w w' → D.Resume c w' g' →
    D.Keep c w g w' g' → P.fresh c w' = none → D.safe program (fun value _ _ => value.elim) w' g'

structure Holds (m : Config I Unit C W) (g : G) : Prop where
  inv : D.Inv m.world g
  running : D.safe (m.code ()) (fun value _ _ => value.elim) m.world g
  suspended : ∀ c, P.current m.world () ≠ c → D.Waits c (m.saved c) m.world g

variable {D}

theorem Waits.keep {c : C} {program : Program I Empty} {w w' : W} {g g' : G}
    (waits : D.Waits c program w g) (hkeep : L.Keep c w w') (hkeep' : D.Keep c w g w' g') :
    D.Waits c program w' g' := fun w₁ g₁ inv inv' hresume hlater hresume' hlater' =>
  waits w₁ g₁ inv inv' hresume (L.keep_trans hkeep hlater) hresume' (D.keep_trans hkeep' hlater')

theorem Holds.does {m : Config I Unit C W} {g : G} (good : L.Good m) (holds : D.Holds m g)
    {i : I β} {next : β → Program I Empty} (hcode : m.code () = .step i next) :
    D.Does i (fun answer => D.safe (next answer) fun value _ _ => value.elim) m.world g := by
  have hrun := holds.running
  rw [hcode] at hrun
  exact hrun m.world g .refl good.inv holds.inv

section Run

variable {m m' : Config I Unit C W} {g : G}

/-- A step that leaves the hart on its stack. -/
private theorem Holds.advance (holds : D.Holds m g) {w : W} {program : Program I Empty}
    (guarantee : L.Guarantee () m.world w) (keeps : D.Keeps m.world g w (D.next m.world w g))
    (hsafe : D.safe program (fun value _ _ => value.elim) w (D.next m.world w g)) :
    D.Holds { m with world := w, code := Function.update m.code () program }
      (D.next m.world w g) where
  inv := keeps.inv
  running := by simpa using hsafe
  suspended c hc := by
    have hbefore : P.current m.world () ≠ c := by rwa [← guarantee.current]
    exact (holds.suspended c hbefore).keep (guarantee.keep c fun _ => hbefore)
      (keeps.keep c hbefore)

private theorem Holds.same (holds : D.Holds m g) {program : Program I Empty}
    (hsafe : D.safe program (fun value _ _ => value.elim) m.world g) :
    D.Holds { m with code := Function.update m.code () program } g where
  inv := holds.inv
  running := by simpa using hsafe
  suspended := holds.suspended

variable [DecidableEq C]

theorem Holds.step (verified : L.Verified) (sound : D.Sound) (good : L.Good m)
    (holds : D.Holds m g) (hstep : Step (P.restrict D.May) m m') :
    D.Holds m' (D.next m.world m'.world g) := by
  cases hstep with
  | atomic h hcode heffect =>
      change P.effect _ = _ at heffect
      have hdoes := good.does hcode
      have hown := holds.does good hcode
      simp only [Logic.Does, Does, heffect] at hdoes hown
      obtain ⟨keeps, hsafe⟩ := hown hdoes.1
      exact holds.advance hdoes.1 keeps hsafe
  | call h hcode heffect =>
      change P.effect _ = _ at heffect
      have hdoes := good.does hcode
      have hown := holds.does good hcode
      simp only [Logic.Does, Does, heffect] at hdoes hown
      obtain ⟨hpre, hnext⟩ := hown hdoes.1
      have hbody := safe_and (verified.call heffect good.inv hdoes.1)
        (sound.call heffect good.inv holds.inv hdoes.1 hpre)
      rw [D.next_self]
      exact holds.same (safe_seq good.inv holds.inv hbody fun answer w' g' inv inv' hpost =>
        hnext answer w' g' inv inv' hpost.1 hpost.2)
  | choose h answer hcode heffect =>
      change P.effect _ = _ at heffect
      have hown := holds.does good hcode
      simp only [Does, heffect] at hown
      rw [D.next_self]
      exact holds.same (hown answer)
  | @switch h _ i next old new transfer answer hcode heffect =>
      change P.effect _ = _ at heffect
      have hdoes := good.does hcode
      have hown := holds.does good hcode
      simp only [Logic.Does, Does, heffect] at hdoes hown
      have switches := hdoes.1
      obtain ⟨keeps, hresume, hback⟩ := hown switches
      have hnew : P.current m.world () ≠ new := switches.new_suspended ()
      refine ⟨keeps.inv, ?_, fun c hc => ?_⟩
      · change D.safe (Function.update m.code () (P.resumed m.saved new (transfer () m.world)) ()) _
          _ _
        rw [Function.update_self, Platform.resumed]
        cases hfresh : P.fresh new (transfer () m.world) with
        | some start => exact sound.fresh hfresh switches.inv keeps.inv switches.resume hresume
        | none =>
            exact holds.suspended new hnew _ _ switches.inv keeps.inv switches.resume
              (switches.keep new fun _ => hnew) hresume (keeps.keep new hnew) hfresh
      · by_cases hold : c = old
        · subst hold
          intro w' g' inv inv' h₁ h₂ h₃ h₄ h₅
          simpa using hback w' g' inv inv' h₁ h₂ h₃ h₄ h₅
        · have hbefore : P.current m.world () ≠ c := by
            rw [switches.from_old]
            exact Ne.symm hold
          simpa [hold] using (holds.suspended c hbefore).keep
            (switches.keep c fun _ => hbefore) (keeps.keep c hbefore)
  | trap h htrap =>
      obtain ⟨may, htrap⟩ := htrap
      obtain ⟨guarantee, hhandler⟩ := verified.handler good.inv htrap
      obtain ⟨keeps, hown⟩ := sound.handler good.inv holds.inv may htrap
      refine holds.advance guarantee keeps (safe_seq guarantee.inv keeps.inv
        (safe_and hhandler hown) fun _ w' g' inv inv' hpreempt => ?_)
      exact safe_pause holds.running
        (.trap .refl may htrap hpreempt.1 hpreempt.2 inv inv')

theorem Holds.reachable (verified : L.Verified) (sound : D.Sound) (good : L.Good m)
    (holds : D.Holds m g) (hreach : Reachable (P.restrict D.May) m m') :
    L.Good m' ∧ ∃ g', D.Holds m' g' := by
  induction hreach with
  | refl => exact ⟨good, g, holds⟩
  | tail _ hstep ih =>
      obtain ⟨good', g', holds'⟩ := ih
      exact ⟨good'.step verified hstep.of_restrict, _, holds'.step verified sound good' hstep⟩

end Run

end Layer

end Xv6Kernel.Foundation
