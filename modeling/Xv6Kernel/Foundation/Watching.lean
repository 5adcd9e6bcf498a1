import Xv6Kernel.Foundation.Interleaving

/-!
# The program of one context on the only hart

A `Watch` follows what the program of one context does on a machine with one hart,
and carries a history of the run along.  Of the other contexts and of the handler
only `Away` is known.  A `Logic` that is known to be sound supplies the rest: that
a switch leaves the context the hart is on, and what a step may do to the world.
-/

namespace Xv6Kernel.Foundation

variable {I : Type → Type 1} {H C W G : Type} {α β : Type}

structure Watch (P : Platform I H C W) (G : Type) where
  context : C
  /-- The history after a step of the world. -/
  next : W → W → G → G
  Inv : W → G → Prop
  /-- What may happen while the context does not run a program of its own. -/
  Away : W → G → W → G → Prop
  /-- What a step may do. -/
  Allowed : W → G → W → Prop
  pre : ∀ {β : Type}, I β → W → G → Prop
  post : ∀ {β : Type}, I β → W → G → β → W → G → Prop
  inv_next : ∀ {w w' g}, Inv w g → Inv w' (next w w' g)
  next_self : ∀ {w g}, Inv w g → next w w g = g
  away_refl : ∀ {w g}, Away w g w g
  away_trans : ∀ {w g w' g' w'' g''}, Away w g w' g' → Away w' g' w'' g'' → Away w g w'' g''
  allowed_self : ∀ {w g}, Allowed w g w

namespace Watch

variable {P : Platform I H C W} (D : Watch P G) (h : H)

/-- What may happen before the next instruction of the context. -/
inductive Pause (w : W) (g : G) : W → G → Prop where
  | refl : Pause w g w g
  | trap {w' wt : W} {g' : G} (htrap : P.trap h w wt) (haway : D.Away w g w' g') :
      Pause w g w' g'

/-- Executing one instruction is fine and leads into `K`. -/
def Does (i : I β) (K : β → W → G → Prop) (w : W) (g : G) : Prop :=
  match P.effect i with
  | .atomic act => D.Allowed w g (act h w).2 ∧
      K (act h w).1 (act h w).2 (D.next w (act h w).2 g)
  | .call _ => D.pre i w g ∧
      ∀ answer w' g', D.Inv w' g' → D.post i w g answer w' g' → K answer w' g'
  | .switch old _ transfer answer => old = D.context →
      D.Allowed w g (transfer h w) ∧
        ∀ w' g', D.Inv w' g' →
          D.Away (transfer h w) (D.next w (transfer h w) g) w' g' → K answer w' g'
  | .choose => ∀ answer, K answer w g
  | .halt _ => True

def safe : Program I α → (α → W → G → Prop) → W → G → Prop
  | .done value, Q => fun w g => Q value w g
  | .step i next, Q => fun w g =>
      ∀ w' g', D.Pause h w g w' g' → D.Inv w' g' →
        D.Does h i (fun answer => safe (next answer) Q) w' g'

variable {D h}

theorem Pause.trans {w w' w'' : W} {g g' g'' : G} (first : D.Pause h w g w' g')
    (second : D.Pause h w' g' w'' g'') : D.Pause h w g w'' g'' := by
  cases second with
  | refl => exact first
  | trap htrap' haway' =>
      cases first with
      | refl => exact .trap htrap' haway'
      | trap htrap haway => exact .trap htrap (D.away_trans haway haway')

theorem Pause.away {w w' : W} {g g' : G} (pause : D.Pause h w g w' g') :
    D.Away w g w' g' := by
  cases pause with
  | refl => exact D.away_refl
  | trap _ haway => exact haway

theorem Does.mono {i : I β} {K K' : β → W → G → Prop} {w : W} {g : G} (hinv : D.Inv w g)
    (hmono : ∀ answer w' g', D.Inv w' g' → K answer w' g' → K' answer w' g')
    (does : D.Does h i K w g) : D.Does h i K' w g := by
  unfold Does at does ⊢
  cases heffect : P.effect i with
  | atomic act =>
      rw [heffect] at does
      exact ⟨does.1, hmono _ _ _ (D.inv_next hinv) does.2⟩
  | call body =>
      rw [heffect] at does
      exact ⟨does.1, fun answer w' g' hinv' hpost =>
        hmono _ _ _ hinv' (does.2 answer w' g' hinv' hpost)⟩
  | switch old new transfer answer =>
      rw [heffect] at does
      exact fun hold => ⟨(does hold).1, fun w' g' hinv' haway =>
        hmono _ _ _ hinv' ((does hold).2 w' g' hinv' haway)⟩
  | choose =>
      rw [heffect] at does
      exact fun answer => hmono _ _ _ hinv (does answer)
  | halt message => trivial

theorem safe_mono {program : Program I α} {Q Q' : α → W → G → Prop} {w : W} {g : G}
    (hinv : D.Inv w g) (hmono : ∀ value w' g', D.Inv w' g' → Q value w' g' → Q' value w' g')
    (hsafe : D.safe h program Q w g) : D.safe h program Q' w g := by
  induction program generalizing w g with
  | done value => exact hmono value w g hinv hsafe
  | step i next ih =>
      intro w' g' pause hinv'
      exact (hsafe w' g' pause hinv').mono hinv' fun answer w'' g'' hinv'' hnext =>
        ih answer hinv'' hnext

theorem safe_bind (program : Program I α) (rest : α → Program I β) (Q : β → W → G → Prop)
    (w : W) (g : G) :
    D.safe h (program >>= rest) Q w g ↔
      D.safe h program (fun value => D.safe h (rest value) Q) w g := by
  induction program generalizing w g with
  | done value => rfl
  | step i next ih =>
      have hnext : (fun answer => D.safe h (next answer >>= rest) Q) =
          fun answer => D.safe h (next answer) fun value => D.safe h (rest value) Q := by
        funext answer w' g'
        exact propext (ih answer w' g')
      simp only [Program.step_bind, safe, hnext]

/-- A sequence, when the first part is known by itself. -/
theorem safe_seq {program : Program I α} {rest : α → Program I β} {R : α → W → G → Prop}
    {Q : β → W → G → Prop} {w : W} {g : G} (hinv : D.Inv w g)
    (hprogram : D.safe h program R w g)
    (hrest : ∀ value w' g', D.Inv w' g' → R value w' g' → D.safe h (rest value) Q w' g') :
    D.safe h (program >>= rest) Q w g :=
  (safe_bind ..).mpr (safe_mono hinv hrest hprogram)

/-- A program that never answers may be looked at any time later. -/
theorem safe_pause {program : Program I Empty} {Q : Empty → W → G → Prop} {w w' : W}
    {g g' : G} (hsafe : D.safe h program Q w g) (pause : D.Pause h w g w' g') :
    D.safe h program Q w' g' := by
  cases program with
  | done value => exact value.elim
  | step i next =>
      intro w'' g'' pause' hinv
      exact hsafe w'' g'' (pause.trans pause') hinv

theorem safe_atomic {i : I β} {act : H → W → β × W} {Q : β → W → G → Prop} {w : W} {g : G}
    (heffect : P.effect i = .atomic act) (hoff : ∀ wt, ¬ P.trap h w wt)
    (hallowed : D.Allowed w g (act h w).2)
    (hQ : Q (act h w).1 (act h w).2 (D.next w (act h w).2 g)) :
    D.safe h (Program.perform i) Q w g := by
  intro w' g' pause _
  cases pause with
  | trap htrap _ => exact absurd htrap (hoff _)
  | refl =>
      unfold Does
      rw [heffect]
      exact ⟨hallowed, hQ⟩

theorem safe_call {i : I β} {body : Program I β} {Q : β → W → G → Prop} {w : W} {g : G}
    (heffect : P.effect i = .call body) (hoff : ∀ wt, ¬ P.trap h w wt) (hpre : D.pre i w g)
    (hQ : ∀ answer w' g', D.Inv w' g' → D.post i w g answer w' g' → Q answer w' g') :
    D.safe h (Program.perform i) Q w g := by
  intro w' g' pause _
  cases pause with
  | trap htrap _ => exact absurd htrap (hoff _)
  | refl =>
      unfold Does
      rw [heffect]
      exact ⟨hpre, hQ⟩

/-! ## Soundness -/

variable (D h)

structure Sound : Prop where
  call : ∀ {β : Type} {i : I β} {body : Program I β} {w : W} {g : G},
    P.effect i = .call body → D.Inv w g → D.pre i w g →
      D.safe h body (fun answer w' g' => D.post i w g answer w' g') w g
  handler : ∀ {w wt : W} {g : G}, D.Inv w g → P.trap h w wt →
    D.Allowed w g wt ∧
      D.safe h P.handler (fun _ w' g' => D.Away w g w' g') wt (D.next w wt g)
  started : ∀ w, P.fresh D.context w = none

/-- What the steps of the other contexts mean for the history. -/
def Others (L : Logic P) : Prop :=
  ∀ {w w' : W} {g : G}, D.Inv w g → P.current w h ≠ D.context → L.Allowed h w w' →
    D.Away w g w' (D.next w w' g) ∧ D.Allowed w g w'

/-- The program of the context is safe, wherever it is. -/
structure Watches (m : Config I H C W) (g : G) : Prop where
  inv : D.Inv m.world g
  running : P.current m.world h = D.context →
    D.safe h (m.code h) (fun value _ _ => value.elim) m.world g
  suspended : P.current m.world h ≠ D.context →
    ∀ w' g', D.Inv w' g' → D.Away m.world g w' g' →
      D.safe h (m.saved D.context) (fun value _ _ => value.elim) w' g'

variable {D h}

theorem Watches.does {m : Config I H C W} {g : G} (watches : D.Watches h m g)
    (hcur : P.current m.world h = D.context) {i : I β} {next : β → Program I Empty}
    (hcode : m.code h = .step i next) :
    D.Does h i (fun answer => D.safe h (next answer) fun value _ _ => value.elim) m.world g := by
  have hrun := watches.running hcur
  rw [hcode] at hrun
  exact hrun m.world g .refl watches.inv

/-- What the context needs of a program that it is about to call. -/
theorem Watches.called {m : Config I H C W} {g : G} (watches : D.Watches h m g)
    (hcur : P.current m.world h = D.context) {i : I β} {next : β → Program I Empty}
    {body : Program I β} (hcode : m.code h = .step i next)
    (heffect : P.effect i = .call body) : D.pre i m.world g := by
  have hdoes := watches.does hcur hcode
  simp only [Does, heffect] at hdoes
  exact hdoes.1

section Run

variable [DecidableEq H] {L : Logic P} {m m' : Config I H C W} {g : G}

/-- A step that stays in the context. -/
private theorem Watches.ahead (watches : D.Watches h m g)
    (hcur : P.current m.world h = D.context) {w : W} {program : Program I Empty}
    (hcurrent : P.current w = P.current m.world)
    (hsafe : D.safe h program (fun value _ _ => value.elim) w (D.next m.world w g)) :
    D.Watches h { m with world := w, code := Function.update m.code h program }
      (D.next m.world w g) where
  inv := D.inv_next watches.inv
  running _ := by simpa using hsafe
  suspended hne := absurd (by rw [hcurrent]; exact hcur) hne

/-- A step of another context that stays there. -/
private theorem Watches.aside (watches : D.Watches h m g)
    (hcur : P.current m.world h ≠ D.context) {w : W} {program : Program I Empty}
    (hcurrent : P.current w = P.current m.world)
    (haway : D.Away m.world g w (D.next m.world w g)) :
    D.Watches h { m with world := w, code := Function.update m.code h program }
      (D.next m.world w g) where
  inv := D.inv_next watches.inv
  running heq := absurd (by rw [← hcurrent]; exact heq) hcur
  suspended _ w' g' hinv haway' :=
    watches.suspended hcur w' g' hinv (D.away_trans haway haway')

variable [DecidableEq C]

theorem Watches.step (verified : L.Verified) (lone : ∀ h' : H, h' = h) (sound : D.Sound h)
    (others : D.Others h L) (good : L.Good m) (watches : D.Watches h m g) (hstep : Step P m m') :
    D.Watches h m' (D.next m.world m'.world g) ∧ D.Allowed m.world g m'.world := by
  cases hstep with
  | atomic h₁ hcode heffect =>
      obtain rfl := lone h₁
      have hdoes := good.does hcode
      simp only [Logic.Does, heffect] at hdoes
      by_cases hcur : P.current m.world h₁ = D.context
      · have hown := watches.does hcur hcode
        simp only [Does, heffect] at hown
        exact ⟨watches.ahead hcur hdoes.1.current hown.2, hown.1⟩
      · obtain ⟨haway, hallowed⟩ := others watches.inv hcur hdoes.1.allowed
        exact ⟨watches.aside hcur hdoes.1.current haway, hallowed⟩
  | call h₁ hcode heffect =>
      obtain rfl := lone h₁
      refine ⟨?_, D.allowed_self⟩
      by_cases hcur : P.current m.world h₁ = D.context
      · have hown := watches.does hcur hcode
        simp only [Does, heffect] at hown
        refine watches.ahead (w := m.world) hcur rfl ?_
        rw [D.next_self watches.inv]
        exact safe_seq watches.inv (sound.call heffect watches.inv hown.1) hown.2
      · refine watches.aside (w := m.world) hcur rfl ?_
        rw [D.next_self watches.inv]
        exact D.away_refl
  | choose h₁ answer hcode heffect =>
      obtain rfl := lone h₁
      refine ⟨?_, D.allowed_self⟩
      by_cases hcur : P.current m.world h₁ = D.context
      · have hown := watches.does hcur hcode
        simp only [Does, heffect] at hown
        refine watches.ahead (w := m.world) hcur rfl ?_
        rw [D.next_self watches.inv]
        exact hown answer
      · refine watches.aside (w := m.world) hcur rfl ?_
        rw [D.next_self watches.inv]
        exact D.away_refl
  | @switch h₁ _ i next old new transfer answer hcode heffect =>
      obtain rfl := lone h₁
      have hdoes := good.does hcode
      simp only [Logic.Does, heffect] at hdoes
      have hswitch := hdoes.1
      have hnew : new ≠ old := fun heq => hswitch.new_suspended h₁ (hswitch.from_old.trans heq.symm)
      have hafter : P.current (transfer h₁ m.world) h₁ = new := by
        rw [hswitch.current, Function.update_self]
      by_cases hcur : P.current m.world h₁ = D.context
      · have hown := watches.does hcur hcode
        simp only [Does, heffect] at hown
        have hold : old = D.context := hswitch.from_old.symm.trans hcur
        obtain ⟨hallowed, hback⟩ := hown hold
        refine ⟨⟨D.inv_next watches.inv, fun heq => ?_, fun _ w' g' hinv haway => ?_⟩, hallowed⟩
        · exact absurd (hafter.symm.trans (heq.trans hold.symm)) hnew
        · subst hold
          simpa using hback w' g' hinv haway
      · obtain ⟨haway, hallowed⟩ := others watches.inv hcur hswitch.allowed
        refine ⟨⟨D.inv_next watches.inv, fun heq => ?_, fun _ w' g' hinv haway' => ?_⟩, hallowed⟩
        · obtain rfl : new = D.context := hafter.symm.trans heq
          simpa [Platform.resumed, sound.started] using
            watches.suspended hcur _ _ (D.inv_next watches.inv) haway
        · have hold : D.context ≠ old := fun heq => hcur (hswitch.from_old.trans heq.symm)
          simpa [hold] using
            watches.suspended hcur w' g' hinv (D.away_trans haway haway')
  | trap h₁ htrap =>
      obtain rfl := lone h₁
      have guarantee := (verified.handler good.inv htrap).1
      by_cases hcur : P.current m.world h₁ = D.context
      · obtain ⟨hallowed, hhandler⟩ := sound.handler watches.inv htrap
        refine ⟨watches.ahead hcur guarantee.current ?_, hallowed⟩
        refine safe_seq (D.inv_next watches.inv) hhandler fun _ w' g' hinv haway => ?_
        exact safe_pause (watches.running hcur) (.trap htrap haway)
      · obtain ⟨haway, hallowed⟩ := others watches.inv hcur guarantee.allowed
        exact ⟨watches.aside hcur guarantee.current haway, hallowed⟩

/-- The history along a run that begins with the history `g`. -/
def history (D : Watch P G) (run : Nat → Config I H C W) (g : G) : Nat → G
  | 0 => g
  | n + 1 => D.next (run n).world (run (n + 1)).world (D.history run g n)

theorem Watches.run (verified : L.Verified) (lone : ∀ h' : H, h' = h) (sound : D.Sound h)
    (others : D.Others h L) {run : Nat → Config I H C W} {n : Nat}
    (hrun : ∀ k < n, Step P (run k) (run (k + 1)))
    (good : L.Good (run 0)) (watches : D.Watches h (run 0) g) :
    L.Good (run n) ∧ D.Watches h (run n) (D.history run g n) := by
  induction n with
  | zero => exact ⟨good, watches⟩
  | succ n ih =>
      obtain ⟨good', watches'⟩ := ih fun k hk => hrun k (Nat.lt_succ_of_lt hk)
      have hstep := hrun n (Nat.lt_succ_self n)
      exact ⟨good'.step verified hstep, (watches'.step verified lone sound others good' hstep).1⟩

theorem Watches.reachable (verified : L.Verified) (lone : ∀ h' : H, h' = h)
    (sound : D.Sound h) (others : D.Others h L)
    (good : L.Good m) (watches : D.Watches h m g) (hreach : Reachable P m m') :
    L.Good m' ∧ ∃ g', D.Watches h m' g' := by
  induction hreach with
  | refl => exact ⟨good, g, watches⟩
  | tail _ hstep ih =>
      obtain ⟨good', g', watches'⟩ := ih
      exact ⟨good'.step verified hstep, _,
        (watches'.step verified lone sound others good' hstep).1⟩

end Run

end Watch

end Xv6Kernel.Foundation
