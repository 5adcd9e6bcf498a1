import Xv6Kernel.Process.Steps

/-!
# Rules for the kernel's programs

`Triple` reads: on a hart as `l` says and with `F` of the data, the program runs
safely and ends on a hart as `m` says with `G` of the data.  An assertion before
an access has to be `Stable`: other harts and traps must not be able to break it.
-/

namespace Xv6Kernel.Process

open Xv6Kernel.Foundation Xv6Kernel.Mm

variable {H : Type} (S : Setting H) {α β : Type}

def Stable (l : Local H) (F : Kernel → Prop) : Prop :=
  ∀ k k', Frame S False l.ctx l.held k k' → F k → F k'

def Triple [DecidableEq H] (l : Local H) (F : Kernel → Prop) (program : Code H α)
    (m : α → Local H) (G : α → Kernel → Prop) : Prop :=
  ∀ h w, Inv S.img w → On l h w → F w.kernel →
    (logic S).wp program (fun value h' w' => On (m value) h' w' ∧ G value w'.kernel) h w

variable {S} {l l₁ : Local H} {m : α → Local H} {F F' : Kernel → Prop}
  {G G' : α → Kernel → Prop}

namespace Stable

theorem and (h : Stable S l F) (h' : Stable S l F') :
    Stable S l fun k => F k ∧ F' k :=
  fun k k' frame hF => ⟨h k k' frame hF.1, h' k k' frame hF.2⟩

theorem const {P : Prop} : Stable S l fun _ => P := fun _ _ _ => id

theorem frame (k₀ : Kernel) {held : Lock → Prop} (hheld : ∀ lk, held lk → l.held lk) :
    Stable S l (Frame S False l.ctx held k₀) :=
  fun _ _ frame hF => hF.trans (frame.weaken id hheld)

/-- What is stable with few locks is stable with more. -/
theorem more (h : Stable S l F) (hctx : l₁.ctx = l.ctx)
    (hheld : ∀ lk, l.held lk → l₁.held lk) : Stable S l₁ F :=
  fun k k' frame hF => h k k' ((hctx ▸ frame).weaken id hheld) hF

theorem all {ι : Sort*} {P : ι → Kernel → Prop} (h : ∀ i, Stable S l (P i)) :
    Stable S l fun k => ∀ i, P i k :=
  fun k k' frame hF i => h i k k' frame (hF i)

end Stable

/-! ## Structure -/

namespace Triple

variable [DecidableEq H]

theorem pure {value : α} (hF : ∀ k, F k → G value k) (hl : m value = l) :
    Triple S l F (Pure.pure value) m G :=
  fun _ _ _ on hf => ⟨hl ▸ on, hF _ hf⟩

theorem bind {program : Code H α} {rest : α → Code H β} {l₂ : β → Local H}
    {K : β → Kernel → Prop} (hfirst : Triple S l F program m G)
    (hrest : ∀ value, Triple S (m value) (G value) (rest value) l₂ K) :
    Triple S l F (program >>= rest) l₂ K := by
  intro h w inv on hF
  refine ((logic S).wp_bind ..).mpr ?_
  exact Logic.wp_mono inv (fun value h' w' inv' hpost =>
    hrest value h' w' inv' hpost.1 hpost.2) (hfirst h w inv on hF)

theorem mono {program : Code H α} (h : Triple S l F' program m G')
    (hpre : ∀ k, F k → F' k) (hpost : ∀ value k, G' value k → G value k) :
    Triple S l F program m G := by
  intro h₀ w inv on hF
  exact Logic.wp_mono inv (fun value _ _ _ hpost' => ⟨hpost'.1, hpost value _ hpost'.2⟩)
    (h h₀ w inv on (hpre _ hF))

theorem pre {program : Code H α} (h : Triple S l F' program m G)
    (hpre : ∀ k, F k → F' k) : Triple S l F program m G :=
  h.mono hpre fun _ _ => id

theorem ite {c : Prop} [Decidable c] {p q : Code H α}
    (hp : c → Triple S l F p m G) (hq : ¬ c → Triple S l F q m G) :
    Triple S l F (if c then p else q) m G := by
  split
  · next hc => exact hp hc
  · next hc => exact hq hc

/-- A fact that the assertion contains may be used as an assumption. -/
theorem assume {P : Prop} {program : Code H α} (hF : ∀ k, F k → P)
    (h : P → Triple S l F program m G) : Triple S l F program m G :=
  fun h₀ w inv on hf => h (hF _ hf) h₀ w inv on hf

theorem known {P : Prop} {program : Code H α} (h : P → Triple S l F program m G) :
    Triple S l (fun k => F k ∧ P) program m G :=
  fun h₀ w inv on hf => h hf.2 h₀ w inv on hf.1

/-- What the invariant implies may be used at any time. -/
theorem invariant {program : Code H α}
    (hF : ∀ h w, Inv S.img w → On l h w → F w.kernel → F' w.kernel)
    (h : Triple S l F' program m G) : Triple S l F program m G :=
  fun h₀ w inv on hf => h h₀ w inv on (hF h₀ w inv on hf)

theorem exists_pre {ι : Sort*} {P : ι → Kernel → Prop} {program : Code H α}
    (h : ∀ i, Triple S l (P i) program m G) :
    Triple S l (fun k => ∃ i, P i k) program m G :=
  fun h₀ w inv on ⟨i, hf⟩ => h i h₀ w inv on hf

/-- The data at the beginning, to speak of it later. -/
theorem start {program : Code H α}
    (h : ∀ k₀, F k₀ → Triple S l (fun k => F k ∧ k = k₀) program m G) :
    Triple S l F program m G :=
  fun h₀ w inv on hf => h w.kernel hf h₀ w inv on ⟨hf, rfl⟩

/-! ## Accesses -/

theorem act {f : H → World H → β × World H} {l₂ : β → Local H}
    {K : β → Kernel → Prop} (hF : Stable S l F)
    (hstep : ∀ h w, Inv S.img w → On l h w → F w.kernel →
      (logic S).Guarantee h w (f h w).2 ∧ On (l₂ (f h w).1) h (f h w).2 ∧
        K (f h w).1 (f h w).2.kernel) :
    Triple S l F (Process.act f) l₂ K := by
  intro h w inv on hf h' w' env inv'
  obtain ⟨on', -, frame⟩ := env_on inv on env
  exact hstep h' w' inv' on' (hF _ _ frame hf)

theorem read {f : Kernel → β} {K : β → Kernel → Prop} (hF : Stable S l F)
    (hread : ∀ h w, Inv S.img w → On l h w → F w.kernel →
      K (f w.kernel) w.kernel) :
    Triple S l F (Process.read f) (fun _ => l) K :=
  act hF fun h w inv on hf => ⟨⟨inv, fun _ => .still _, rfl, fun _ _ => .refl _ _, fun _ _ =>
    ⟨.refl, fun _ _ hdead halive => absurd halive hdead, .refl, fun _ _ => rfl⟩⟩, on,
    hread h w inv on hf⟩

theorem readProc {p : Slot} {f : Proc → β} {K : β → Kernel → Prop}
    (hF : Stable S l F)
    (hread : ∀ h w, Inv S.img w → On l h w → F w.kernel →
      K (f (w.kernel.proc p)) w.kernel) :
    Triple S l F (Process.readProc p f) (fun _ => l) K :=
  read hF hread

theorem write {f : Kernel → Kernel} {K : Unit → Kernel → Prop} (hF : Stable S l F)
    (hwrite : ∀ h w, Inv S.img w → On l h w → F w.kernel →
      Change S l w (f w.kernel) ∧ K () (f w.kernel)) :
    Triple S l F (Process.write f) (fun _ => l) K :=
  act hF fun h w inv on hf => by
    obtain ⟨change, hK⟩ := hwrite h w inv on hf
    exact ⟨(change.own on).guarantee inv (change.inv inv), on.write _, hK⟩

theorem readWrite {f : Kernel → β × Kernel} {K : β → Kernel → Prop}
    (hF : Stable S l F)
    (hwrite : ∀ h w, Inv S.img w → On l h w → F w.kernel →
      Change S l w (f w.kernel).2 ∧ K (f w.kernel).1 (f w.kernel).2) :
    Triple S l F (Process.act fun _ w =>
      ((f w.kernel).1, { w with kernel := (f w.kernel).2 })) (fun _ => l) K :=
  act hF fun h w inv on hf => by
    obtain ⟨change, hK⟩ := hwrite h w inv on hf
    exact ⟨(change.own on).guarantee inv (change.inv inv), on.write _, hK⟩

theorem choose (hF : Stable S l F) :
    Triple S l F (Process.choose β) (fun _ => l) fun _ => F := by
  intro h w inv on hf h' w' env inv' _
  obtain ⟨on', -, frame⟩ := env_on inv on env
  exact ⟨on', hF _ _ frame hf⟩

/-- Panics other than those of the lock discipline end the run of the hart. -/
theorem panic {message : String} (h : message ∉ lockPanics) :
    Triple S l F (Process.panic message) m G :=
  fun _ _ _ _ _ _ _ _ _ => h

theorem unreachable {program : Code H α}
    (hF : ∀ h w, Inv S.img w → On l h w → F w.kernel → False) :
    Triple S l F program m G :=
  fun h w inv on hf => (hF h w inv on hf).elim

/-! ## Calls -/

/-- An instruction with a body is used by its contract. -/
theorem call {i : Instr H β} {body : Code H β} {l₂ : β → Local H}
    {K : β → Kernel → Prop}
    (hbody : (platform S.img S.quiet : Platform _ H _ _).effect i = .call body)
    (hF : Stable S l F)
    (hpre : ∀ h w, Inv S.img w → On l h w → F w.kernel → Pre S i l w)
    (hpost : ∀ w answer h' w', Inv S.img w' → F w.kernel → Post S i l w answer h' w' →
      On (l₂ answer) h' w' ∧ K answer w'.kernel) :
    Triple S l F (Program.perform i) l₂ K := by
  intro h w inv on hf h' w' env inv'
  obtain ⟨on', -, frame⟩ := env_on inv on env
  have hf' := hF _ _ frame hf
  have hneeds := hpre h' w' inv' on' hf'
  unfold Logic.Does
  rw [hbody]
  exact ⟨⟨l, on', hneeds⟩, fun answer h'' w'' inv'' hgives =>
    hpost w' answer h'' w'' inv'' hf' (hgives l on' hneeds)⟩


end Triple

end Xv6Kernel.Process
