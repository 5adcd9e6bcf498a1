import Xv6Kernel.Process.Waiting

/-!
# The trap handler

A timer interrupt finds a hart that holds nothing.  Whatever runs until `sret`, the
interrupted program is left on a hart that holds nothing, with interrupts on and its
data as it was.
-/

namespace Xv6Kernel.Process

open Xv6Kernel.Foundation Xv6Kernel.Mm

variable {H : Type} {S : Setting H} {β : Type} {l : Local H} {F : Kernel → Prop} {h : H}
  {w w' : World H} {p : Slot} {k : Kernel} {c : Ctx H} {pc : Word}

/-- The hart in the handler of a trap. -/
def Local.trapped (c : Ctx H) : Local H := ⟨c, [], none, 0, false, c.slot⟩

theorem Local.bare_trapped (c : Ctx H) : (Local.trapped c).Bare := ⟨rfl, rfl, rfl, rfl⟩

/-- What the interrupted program relies on, and nothing else of the data. -/
def Spared (S : Setting H) (c : Ctx H) (k₀ : Kernel) : Kernel → Prop :=
  Frame S False c (fun _ => False) k₀

theorem stable_spared (k₀ : Kernel) (hctx : l.ctx = c) : Stable S l (Spared S c k₀) := by
  subst hctx
  exact Stable.frame k₀ fun _ => False.elim

variable [DecidableEq H]

theorem trapEntry_csr (w : World H) : (trapEntry pc h w).csr h =
    { sstatus := { sie := false, spie := (w.csr h).sstatus.sie, spp := true }
      sepc := pc
      scause := timerCause } := by
  simp [trapEntry, World.setCsr]

theorem on_trapEntry (quiet : Quiet w h) :
    On (.trapped (w.cur h)) h (trapEntry pc h w) where
  ctx := rfl
  held lk := iff_of_false (quiet.unlocked lk) (by simp [Local.held, Local.trapped])
  cpu _ hlk := nomatch hlk
  nodup := List.nodup_nil
  half _ hlk := nomatch hlk
  proc := quiet.proc
  noff := quiet.noff
  unmasked _ := by rw [trapEntry_csr]; rfl
  masked hne := absurd rfl hne

theorem guarantee_trapEntry (inv : Inv S.img w) :
    (logic S).Guarantee h w (trapEntry pc h w) :=
  (own_csr _).guarantee inv (inv.setCsr _ nofun)

/-- With `SIE` clear the hart's registers stay as they are until it writes them. -/
theorem wp_off {f : H → World H → β × World H} {K : β → H → World H → Prop}
    (inv : Inv S.img w) (hsie : (w.csr h).sstatus.sie = false)
    (hstep : ∀ w', Inv S.img w' → Rely S h w w' →
      (logic S).Guarantee h w' (f h w').2 ∧ K (f h w').1 h (f h w').2) :
    (logic S).wp (act f) K h w := by
  intro h' w' env inv'
  obtain ⟨rfl, r, -⟩ := env_off inv hsie env
  exact hstep w' inv' r

theorem wp_off_read {f : H → World H → β} {K : β → H → World H → Prop}
    (inv : Inv S.img w) (hsie : (w.csr h).sstatus.sie = false)
    (hstep : ∀ w', Inv S.img w' → Rely S h w w' → K (f h w') h w') :
    (logic S).wp (act fun h w => (f h w, w)) K h w :=
  wp_off inv hsie fun w' inv' r => ⟨guarantee_refl inv', hstep w' inv' r⟩

/-! ## The timer -/

theorem Triple.timerInterrupt (bare : l.Bare) (hF : Stable S l F) :
    Triple S l F (Process.timerInterrupt : Code H Unit) (fun _ => l) fun _ => F := by
  have hlk (lk : Lock) : lk ∉ l.locks := by simp [bare.locks]
  refine (Triple.untouched (f := fun k => ((), { k with ticks := k.ticks + 1 })) hF
    fun _ => ⟨rfl, rfl, rfl, rfl, rfl, rfl, rfl⟩).bind fun _ => ?_
  have woken : Triple S { l with locks := .ticks :: l.locks } F
      (Process.wakeup (some .ticks)) (fun _ => { l with locks := .ticks :: l.locks })
      fun _ => F :=
    (Triple.wakeup (hF.cons _) bare.half bare.depth bare.proc fun q hq => by
      simp [bare.locks] at hq).mono (fun _ => id) fun _ _ => And.left
  refine ((Triple.acquire hF bare.half bare.depth (hlk .ticks)).mono (fun _ => id)
    fun _ _ => And.left).bind fun _ => woken.bind fun _ => ?_
  refine (Triple.releaseLast (hF.cons _) hF (fun _ => id) bare.half bare.depth bare.proc
    fun h w inv on _ => ?_).bind fun _ => ?_
  · exact on.releasable inv nofun nofun fun _ _ hor => by
      rcases hor with heq | heq <;> cases heq
  · exact (Triple.read (K := fun _ => F) hF fun _ _ _ _ hf => hf).bind fun _ =>
      .printf hF bare.half bare.depth (hlk .print) bare.proc _

/-! ## The return -/

omit [DecidableEq H] in
theorem On.off (on : On (.trapped c) h w) : (w.csr h).sstatus.sie = false :=
  on.unmasked rfl

theorem On.setCsr (on : On l h w) (f : Csr → Csr)
    (hsie : (f (w.csr h)).sstatus.sie = (w.csr h).sstatus.sie) :
    On l h (w.setCsr h f) where
  toHolds := ⟨on.ctx, on.held, on.cpu, on.nodup, on.half, on.proc⟩
  noff := on.noff
  unmasked hzero := by
    have hself : (w.setCsr h f).csr h = f (w.csr h) := Function.update_self ..
    rw [hself, hsie, on.unmasked hzero]
  masked hne := by
    have hself : (w.setCsr h f).csr h = f (w.csr h) := Function.update_self ..
    rw [hself, hsie]
    exact on.masked hne

/-- What a program that took an interrupt finds after `sret`. -/
structure Returns (S : Setting H) (c : Ctx H) (k₀ : Kernel) (h : H) (w : World H) :
    Prop where
  ctx : w.cur h = c
  quiet : Quiet w h
  sie : (w.csr h).sstatus.sie = true
  spared : Spared S c k₀ w.kernel

theorem restore_spec {k₀ : Kernel} (inv : Inv S.img w) (on : On (.trapped c) h w)
    (spared : Spared S c k₀ w.kernel) :
    (logic S).wp (do
      writeCsr fun c => { c with sepc := pc }
      writeCsr fun c => { c with sstatus := ⟨false, true, true⟩ })
      (fun _ h' w' => (logic S).wp sret (fun _ => Returns S c k₀) h' w') h w := by
  have bare := Local.bare_trapped c
  have hframe : Stable S (.trapped c) (Spared S c k₀) := stable_spared k₀ rfl
  refine ((logic S).wp_bind ..).mpr (wp_off inv on.off fun w₁ inv₁ r₁ => ?_)
  have on₁ := on.rely r₁
  have spared₁ := hframe _ _
    ((on.toHolds.frame_of_rely r₁).weaken False.elim fun _ => id) spared
  have first : (logic S).Guarantee h w₁ (w₁.setCsr h fun c => { c with sepc := pc }) :=
    (own_csr _).guarantee inv₁ (inv₁.setCsr _ fun _ => on₁.quiet bare)
  have on₁' := on₁.setCsr (fun c => { c with sepc := pc }) rfl
  refine ⟨first, wp_off first.inv on₁'.off fun w₂ inv₂ r₂ => ?_⟩
  have on₂ := on₁'.rely r₂
  have spared₂ := hframe _ _
    ((on₁'.toHolds.frame_of_rely r₂).weaken False.elim fun _ => id) spared₁
  have second : (logic S).Guarantee h w₂
      (w₂.setCsr h fun c => { c with sstatus := ⟨false, true, true⟩ }) :=
    (own_csr _).guarantee inv₂ (inv₂.setCsr _ nofun)
  have on₂' := on₂.setCsr (fun c => { c with sstatus := ⟨false, true, true⟩ }) on₂.off.symm
  refine ⟨second, wp_off second.inv on₂'.off fun w₃ inv₃ r₃ => ?_⟩
  have on₃ := on₂'.rely r₃
  have hcsr : (w₃.csr h).sstatus.spie = true := by simp [r₃.csr, World.setCsr]
  have quiet₃ := on₃.quiet bare
  have third : (logic S).Guarantee h w₃ (w₃.setCsr h fun c =>
      { c with sstatus := ⟨c.sstatus.spie, true, false⟩ }) :=
    (own_csr _).guarantee inv₃ (inv₃.setCsr _ fun _ => quiet₃)
  refine ⟨third, on₃.ctx,
    ⟨quiet₃.unlocked, quiet₃.noff, quiet₃.proc⟩, ?_, ?_⟩
  · simpa [World.setCsr] using hcsr
  · exact hframe _ _ ((on₂'.toHolds.frame_of_rely r₃).weaken False.elim fun _ => id) spared₂

/-! ## kernelvec -/

omit [DecidableEq H] in
/-- Outside the quiet window the process may be taken off the hart. -/
theorem Spared.window {k₀ : Kernel} (spared : Spared S (.proc p) k₀ k)
    (halive : (k₀.state p).Alive)
    (hwindow : S.quiet = true → (k₀.shadow p).window = false) :
    S.quiet = true → (k.shadow p).window = false := by
  intro hquiet
  obtain ⟨phase, heq, -⟩ := (spared.own halive).shadow
  rw [heq]
  exact hwindow hquiet

/-- After the tick `kerneltrap` yields if a process was interrupted. -/
theorem preempt_spec {k₀ : Kernel} {next : Code H β} {Q : β → H → World H → Prop}
    (hyield : ∀ p, c = .proc p → (k₀.state p).Alive ∧
      (S.quiet = true → (k₀.shadow p).window = false))
    (inv : Inv S.img w) (on : On (.trapped c) h w) (spared : Spared S c k₀ w.kernel)
    (hnext : ∀ h' w', Inv S.img w' → On (.trapped c) h' w' →
      Spared S c k₀ w'.kernel → (logic S).wp next Q h' w') :
    (logic S).wp (do
      if (← myproc).isSome then do
        yield S.img
        next
      else next) Q h w := by
  have hframe : Stable S (.trapped c) (Spared S c k₀) := stable_spared k₀ rfl
  refine ((logic S).wp_bind ..).mpr ((Triple.myproc hframe rfl).wp inv on spared
    fun q h₂ w₂ inv₂ on₂ hq => ?_)
  obtain ⟨spared₂, rfl⟩ := hq
  cases c with
  | cpu h₀ => exact hnext h₂ w₂ inv₂ on₂ spared₂
  | proc p =>
    obtain ⟨halive, hwindow⟩ := hyield p rfl
    have yields : Triple S (.ofProc p [] false) (Spared S (.proc p) k₀)
        (Process.yield S.img) (fun _ => .ofProc p [] false) fun _ => Spared S (.proc p) k₀ :=
      .yield hframe fun k spared => spared.window halive hwindow
    exact ((logic S).wp_bind ..).mpr (yields.wp inv₂ on₂ spared₂
      fun _ h₃ w₃ inv₃ on₃ spared₃ => hnext h₃ w₃ inv₃ on₃ spared₃)

/-- `kernelvec` gives the interrupted program back as it was, the quiet window of
`forkret` excepted. -/
theorem kernelvec_spec (inv : Inv S.img w) (hsie : (w.csr h).sstatus.sie = true)
    (hwindow : S.quiet = true → ¬ inWindow h w) :
    (logic S).wp (kernelvec S.img) (fun _ h' w' => Preempt S h w h' w') h
      (trapEntry pc h w) := by
  have hquiet := inv.quiet h hsie
  have on : On (.trapped (w.cur h)) h (trapEntry pc h w) := on_trapEntry hquiet
  have entered : (logic S).Guarantee h w (trapEntry pc h w) := guarantee_trapEntry inv
  have inv₀ := entered.inv
  have hoff : ((trapEntry pc h w).csr h).sstatus.sie = false := by rw [trapEntry_csr]
  refine ((logic S).wp_bind ..).mpr (((logic S).wp_bind ..).mpr ?_)
  refine wp_off_read inv₀ hoff fun w₁ inv₁ r₁ => ?_
  refine ((logic S).wp_bind ..).mpr ?_
  refine wp_off_read inv₁ (by rw [r₁.csr, hoff]) fun w₂ inv₂ r₂ => ?_
  refine ((logic S).wp_bind ..).mpr ?_
  have r₂' := r₁.trans r₂
  refine wp_off_read inv₂ (by rw [r₂'.csr, hoff]) fun w₃ inv₃ r₃ => ?_
  have r₃' := r₂'.trans r₃
  rw [r₂'.csr, r₃'.csr, r₁.csr, trapEntry_csr, hsie]
  change (logic S).wp (intrGet >>= _) _ h w₃
  refine ((logic S).wp_bind ..).mpr (wp_off_read inv₃ (by rw [r₃'.csr, hoff])
    fun w₄ inv₄ r₄ => ?_)
  have r₄' := r₃'.trans r₄
  have hsie₄ : (w₄.csr h).sstatus.sie = false := by rw [r₄'.csr, hoff]
  have hbit : timerCause.getLsbD 63 = true := by decide
  have hne : timerCause ≠ externalCause := by decide
  rw [hsie₄]
  dsimp only
  rw [if_neg Bool.false_ne_true, if_pos hbit]
  refine ((logic S).wp_bind ..).mpr (((logic S).wp_bind ..).mpr
    (wp_off_read inv₄ hsie₄ fun w₅ inv₅ r₅ => ?_))
  have r₅' := r₄'.trans r₅
  rw [r₅'.csr, trapEntry_csr]
  dsimp only
  rw [if_neg hne, if_pos rfl]
  have hframe : Stable S (.trapped (w.cur h)) (Spared S (w.cur h) w.kernel) :=
    stable_spared _ rfl
  have timer := Triple.timerInterrupt (Local.bare_trapped (w.cur h)) hframe
  have on₅ := on.rely r₅'
  have spared₅ : Spared S (w.cur h) w.kernel w₅.kernel :=
    (on.toHolds.frame_of_rely r₅').weaken False.elim fun _ => False.elim
  refine ((logic S).wp_bind ..).mpr (timer.wp inv₅ on₅ spared₅
    fun _ h₆ w₆ inv₆ on₆ spared₆ => ?_)
  refine preempt_spec (fun p hp => ?_) inv₆ on₆ spared₆
    fun h₇ w₇ inv₇ on₇ spared₇ => ?_
  · have hrunning := (inv.cur_state hp).resolve_right (hquiet.unlocked _)
    refine ⟨by rw [hrunning]; trivial, fun hq => ?_⟩
    have hnot := hwindow hq
    rw [inWindow, hp] at hnot
    exact Bool.eq_false_of_not_eq_true hnot
  · refine Logic.wp_mono inv₇ (fun _ h₈ w₈ inv₈ hreturns => ?_)
      (restore_spec inv₇ on₇ spared₇)
    refine Logic.wp_mono inv₈ (fun _ h₉ w₉ _ returns => ?_) hreturns
    exact ⟨returns.ctx, returns.quiet, returns.sie, returns.spared⟩

theorem handler_spec (inv : Inv S.img w)
    (htrap : (platform S.img S.quiet : Platform (Instr H) H (Ctx H) (World H)).trap h w w') :
    (logic S).Guarantee h w w' ∧
      (logic S).wp (kernelvec S.img) (fun _ h₂ w₂ => (logic S).Preempt h w h₂ w₂) h w' := by
  obtain ⟨hsie, hwindow, pc, rfl⟩ := htrap
  exact ⟨guarantee_trapEntry inv, kernelvec_spec inv hsie hwindow⟩

end Xv6Kernel.Process
