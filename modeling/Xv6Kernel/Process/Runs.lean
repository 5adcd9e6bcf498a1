import Xv6Kernel.Process.Clients

/-!
# Runs

The data after `procinit` satisfies the invariant, `main` and the schedulers meet what
they are proved for, so every run is good.  What the invariant says of every state is
read off here.
-/

namespace Xv6Kernel.Process

open Xv6Kernel.Foundation Xv6Kernel.Mm

variable {H : Type} {S : Setting H} {entries : List Word} {memory : Memory}

/-! ## The first state -/

theorem data_afterProcinit (img : Image) (memory : Memory) :
    Data img (afterProcinit memory) where
  tree :=
    { parent_alive := nofun
      unbooted := fun _ _ => id
      init := nofun }
  pids :=
    { next := rfl
      le := fun _ => le_rfl
      inj := fun _ hne => absurd rfl hne
      pos := fun hlive => hlive.elim
      pid := fun hlive => hlive.elim }
  slot _ := ⟨rfl, fun _ => rfl, nofun, nofun, fun halive => halive.elim, nofun⟩
  hist := Hist.nothing fun _ => id
  start _ := rfl
  order := nofun
  root := nofun

theorem inv_bootWorld (img : Image) (memory : Memory) :
    Inv img (bootWorld memory : World H) where
  quiet _ _ := ⟨fun _ => nofun, rfl, rfl⟩
  lock_cpu := nofun
  cur_cpu hcur := (Ctx.cpu.inj hcur).symm
  cur_inj := nofun
  cur_state := nofun
  proc_cur := nofun
  proc_held := nofun
  proc_inj := nofun
  claimed := nofun
  calm _ _ := nofun
  armed := nofun
  fresh _ halive := halive.elim
  data := data_afterProcinit img memory

theorem on_bootWorld (h : H) :
    On (.ofCpu h [] true none) h (bootWorld memory : World H) where
  ctx := rfl
  held lk := iff_of_false nofun (by simp [Local.held, Local.ofCpu])
  cpu _ hlk := nomatch hlk
  nodup := List.nodup_nil
  half _ hlk := nomatch hlk
  proc := rfl
  noff := rfl
  unmasked _ := rfl
  masked hne := absurd rfl hne

variable [DecidableEq H]

theorem main_spec {Q : Empty → H → World H → Prop} {w : World H} (inv : Inv S.img w)
    (on : On (.ofCpu S.hart [] true none) S.hart w) (hstart : Unbooted 0 w.kernel) :
    (logic S).wp (main S.img entries) Q S.hart w := by
  have bare := Local.bare_ofCpu S.hart true
  have hbooted : Stable S (.ofCpu S.hart [] true none) fun k => k.booted = true :=
    stable_booted rfl
  have creates : Triple S (.ofCpu S.hart [] true none) (fun k => k.booted = true)
      (Program.forEach entries fun entrypoint => do
        let _ ← Process.createProcess S.img entrypoint)
      (fun _ => .ofCpu S.hart [] true none) fun _ _ => True :=
    (Triple.forEach (F := fun _ k => k.booted = true) fun entrypoint _ =>
      (Triple.createProcess bare hbooted (fun _ _ _ hc => nomatch hc)
        (fun _ _ hb => hb) fun _ _ => List.nil_suffix).bind fun _ =>
          .pure (fun _ => And.left) rfl).mono (fun _ => id) fun _ _ _ => trivial
  refine ((logic S).wp_bind ..).mpr ((Triple.userinit bare rfl).wp inv on hstart
    fun _ h₁ w₁ inv₁ on₁ hb => ?_)
  refine ((logic S).wp_bind ..).mpr (creates.wp inv₁ on₁ hb fun _ h₂ w₂ inv₂ on₂ _ => ?_)
  obtain rfl : S.hart = h₂ := inv₂.cur_cpu on₂.ctx
  exact scheduler_spec inv₂ on₂

theorem good_boot (S : Setting H) (entries : List Word) (memory : Memory) :
    (logic S).Good (boot S.img S.hart entries memory) where
  inv := inv_bootWorld S.img memory
  running h := by
    have inv := inv_bootWorld (H := H) S.img memory
    change (logic S).wp (if h = S.hart then main S.img entries else scheduler) _ h _
    split
    · next heq =>
      subst heq
      exact main_spec inv (on_bootWorld S.hart) ⟨rfl, rfl, rfl⟩
    · exact scheduler_spec inv (on_bootWorld h)
  suspended _ _ _ _ _ _ _ _ _ _ _ _ := by
    change "never run" ∉ lockPanics
    decide

/-- A state that the kernel can come to. -/
abbrev Reaches (S : Setting H) (entries : List Word) (memory : Memory)
    (m : Config (Instr H) H (Ctx H) (World H)) : Prop :=
  Reachable (platform S.img S.quiet) (boot S.img S.hart entries memory) m

/-- The kernel of the sample image on one hart. -/
def sampleSetting : Setting Unit := ⟨sampleImage, (), false⟩

def sampleBoot : Config (Instr Unit) Unit (Ctx Unit) (World Unit) :=
  boot sampleImage () [] ⟨fun _ => 0, 0, 0⟩

omit [DecidableEq H] in
theorem sampleBoot_reached : Reaches sampleSetting [] ⟨fun _ => 0, 0, 0⟩ sampleBoot := .refl

theorem Reaches.good {m : Config (Instr H) H (Ctx H) (World H)}
    (reaches : Reaches S entries memory m) : (logic S).Good m :=
  (good_boot S entries memory).reachable verified reaches

end Xv6Kernel.Process
