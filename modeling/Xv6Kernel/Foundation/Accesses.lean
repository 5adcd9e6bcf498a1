import Xv6Kernel.Foundation.Interleaving

/-!
# What every access keeps

A property of the world that no access, switch or trap breaks, whoever comes when, holds
in every run.  Nothing is asked of the order in which the accesses stand in the programs.
-/

namespace Xv6Kernel.Foundation

variable {I : Type → Type 1} {H C W : Type} {α β : Type}

/-- The instruction itself keeps `K`; what it calls is another matter. -/
def Platform.Keeps (P : Platform I H C W) (K : W → Prop) {β : Type} (i : I β) : Prop :=
  match P.effect i with
  | .atomic act => ∀ h w, K w → K (act h w).2
  | .switch _ _ transfer _ => ∀ h w, K w → K (transfer h w)
  | .call _ | .choose | .halt _ => True

/-- Every instruction of the program keeps `K`. -/
abbrev Platform.KeepsAll (P : Platform I H C W) (K : W → Prop) (program : Program I α) : Prop :=
  program.Every fun i => P.Keeps K i

/-- All that may run on a platform keeps `K`. -/
structure Platform.Safe (P : Platform I H C W) (K : W → Prop) : Prop where
  call : ∀ {β : Type} {i : I β} {body : Program I β}, P.effect i = .call body → P.KeepsAll K body
  trap : ∀ {h : H} {w w' : W}, P.trap h w w' → K w → K w'
  handler : P.KeepsAll K P.handler
  fresh : ∀ {c : C} {w : W} {program : Program I Empty}, P.fresh c w = some program →
    P.KeepsAll K program

namespace Platform.KeepsAll

variable {P : Platform I H C W} {K : W → Prop} {program : Program I α} {rest : α → Program I β}

theorem bind (hprogram : P.KeepsAll K program) (hrest : ∀ value, P.KeepsAll K (rest value)) :
    P.KeepsAll K (program >>= rest) :=
  Program.Every.bind hprogram hrest

theorem perform {i : I α} (hi : P.Keeps K i) : P.KeepsAll K (.perform i) :=
  Program.every_perform hi

theorem forEach {ι : Type} {items : List ι} {body : ι → Program I Unit}
    (hbody : ∀ item, P.KeepsAll K (body item)) :
    P.KeepsAll K (Program.forEach items body) := by
  induction items with
  | nil => exact trivial
  | cons item items ih => exact bind (hbody item) fun _ => ih

end Platform.KeepsAll

structure Keeping (P : Platform I H C W) (K : W → Prop) (m : Config I H C W) : Prop where
  world : K m.world
  code : ∀ h, P.KeepsAll K (m.code h)
  saved : ∀ c, P.KeepsAll K (m.saved c)

namespace Keeping

variable {P : Platform I H C W} {K : W → Prop} {m m' : Config I H C W}

theorem first (keeping : Keeping P K m) {h : H} {i : I β} {next : β → Program I Empty}
    (hcode : m.code h = .step i next) :
    P.Keeps K i ∧ ∀ answer, P.KeepsAll K (next answer) := by
  have hkeeps := keeping.code h
  rw [hcode] at hkeeps
  exact hkeeps

variable [DecidableEq H]

theorem advance (keeping : Keeping P K m) {h : H} {w : W} {program : Program I Empty}
    (hw : K w) (hprogram : P.KeepsAll K program) :
    Keeping P K { m with world := w, code := Function.update m.code h program } where
  world := hw
  code h' := by
    by_cases heq : h' = h
    · subst heq
      simpa using hprogram
    · simpa [heq] using keeping.code h'
  saved := keeping.saved

variable [DecidableEq C]

omit [DecidableEq H] [DecidableEq C] in
theorem resumed (safe : P.Safe K) (keeping : Keeping P K m) (c : C) (w : W) :
    P.KeepsAll K (P.resumed m.saved c w) := by
  unfold Platform.resumed
  cases hfresh : P.fresh c w with
  | some program => exact safe.fresh hfresh
  | none => exact keeping.saved c

theorem step (safe : P.Safe K) (keeping : Keeping P K m) (hstep : Step P m m') :
    Keeping P K m' := by
  cases hstep with
  | @atomic h _ i next act hcode heffect =>
    obtain ⟨hkeeps, hnext⟩ := keeping.first hcode
    simp only [Platform.Keeps, heffect] at hkeeps
    exact keeping.advance (hkeeps h _ keeping.world) (hnext _)
  | call h hcode heffect =>
    obtain ⟨-, hnext⟩ := keeping.first hcode
    exact keeping.advance keeping.world ((safe.call heffect).bind hnext)
  | choose h answer hcode heffect =>
    exact keeping.advance keeping.world ((keeping.first hcode).2 answer)
  | @switch h _ i next old new transfer answer hcode heffect =>
    obtain ⟨hkeeps, hnext⟩ := keeping.first hcode
    simp only [Platform.Keeps, heffect] at hkeeps
    have ahead := keeping.advance (h := h) (hkeeps h _ keeping.world)
      (keeping.resumed safe new (transfer h m.world))
    refine ⟨ahead.world, ahead.code, fun c => ?_⟩
    by_cases heq : c = old
    · subst heq
      simpa using hnext answer
    · simpa [heq] using keeping.saved c
  | trap h htrap =>
    exact keeping.advance (safe.trap htrap keeping.world)
      (safe.handler.bind fun _ => keeping.code h)

/-- What every access keeps holds in every state of a run. -/
theorem reachable (safe : P.Safe K) (keeping : Keeping P K m) (hreach : Reachable P m m') :
    Keeping P K m' := by
  induction hreach with
  | refl => exact keeping
  | tail _ hstep ih => exact ih.step safe hstep

end Keeping

end Xv6Kernel.Foundation
