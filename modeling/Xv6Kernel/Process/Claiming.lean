import Xv6Kernel.Process.Pages
import Xv6Kernel.Process.Sleeping

/-!
# Claiming and clearing a slot

A slot that holds no process and whose lock is held belongs to the holder: what it
writes there disturbs nobody.
-/

namespace Xv6Kernel.Process

open Xv6Kernel.Foundation Xv6Kernel.Mm

variable {H : Type} {S : Setting H} {α β : Type} {l : Local H} {F F' : Kernel → Prop}
  {h : H} {w : World H} {p q : Slot} {c : Ctx H} {k : Kernel} {img : Image}

/-! ## Writes to a dead slot -/

section Dead

variable {f : Proc → Proc} {g : Shadow → Shadow}

/-- A slot without a process may be written at will. -/
theorem Data.dead (data : Data img k) (hdead : ¬ (k.state q).Live)
    (hdead' : ¬ (f (k.proc q)).state.Live) (hparent : (f (k.proc q)).parent = none)
    (hkilled : (f (k.proc q)).killed = 0)
    (hserial : (g (k.shadow q)).serial = k.serial q)
    (hused : (f (k.proc q)).state = .used →
      k.serial q ≠ 0 ∧ (f (k.proc q)).pid = pidOf (k.serial q)) :
    Data img ((k.setProc q f).setShadow q g) := by
  have halike := alike_update (Alike.of_not_live hdead hdead')
  refine ⟨?_, ?_, fun r => ?_, ?_, data.start, fun {r s} hr => ?_, fun hb i hi => ?_⟩
  · have htree : Tree _ (Function.update k.parent q none) k.initproc k.booted :=
      (data.tree.alike halike).setParent nofun
    simpa [hparent] using htree
  · simp only [Kernel.setShadow_serial, Kernel.setProc_shadow, hserial,
      Kernel.setProc_serial, Function.update_eq_self]
    refine data.pids.mono fun r hlive => ?_
    have hlive' := (halike r).live.mp (by simpa using hlive)
    have hne : r ≠ q := by
      rintro rfl
      exact hdead hlive'
    exact ⟨hlive', by simp [hne]⟩
  · by_cases hr : r = q
    · subst hr
      simp only [Kernel.setShadow_proc, Kernel.setProc_proc_self,
        Kernel.setShadow_shadow_self, Kernel.setProc_shadow]
      refine ⟨hkilled, fun _ => hparent, fun hs => ?_, fun hs => ?_, fun halive => ?_,
        fun hs => ?_⟩
      · exact absurd (by rw [hs]; trivial) hdead'
      · exact absurd (by rw [hs]; trivial) hdead'
      · exact absurd halive.live hdead'
      · rw [hserial]
        exact hused hs
    · rw [Kernel.setShadow_shadow_of_ne _ g hr, Kernel.setShadow_proc,
        Kernel.setProc_proc_of_ne k f hr]
      exact data.slot r
  · have hist : Hist k.state (Function.update k.parent q (f (k.proc q)).parent)
        (Function.update k.xstate q (f (k.proc q)).xstate) k.initproc k.serial
        (Function.update k.creator q (g (k.shadow q)).creator)
        (Function.update k.phase q (g (k.shadow q)).phase) k.born k.log :=
      data.hist.dead hdead (fun r hr => Function.update_of_ne hr _ _)
        (fun r hr => Function.update_of_ne hr _ _)
        (fun r hr => Function.update_of_ne hr _ _)
        fun r hr => Function.update_of_ne hr _ _
    have hist' := hist.alike halike
    simpa [hserial, Function.update_eq_self] using hist'
  · have hne : r ≠ q := by
      rintro rfl
      simp [hparent] at hr
    have hr' : k.parent r = some s := by simpa [hne] using hr
    simpa [hserial, Function.update_eq_self] using data.order hr'
  · simpa [hserial, Function.update_eq_self] using data.root hb i hi

theorem owed_dead {held : Lock → Prop} (hdead : ¬ (k.state q).Live)
    (hparent : k.parent q = none) (hdead' : ¬ (f (k.proc q)).state.Live)
    (hparent' : (f (k.proc q)).parent = none)
    (hphase : (g (k.shadow q)).phase = .armed → k.phase q = .armed) :
    SlotOwed S c held q k ((k.setProc q f).setShadow q g) where
  self _ halive := absurd halive.live hdead
  reborn _ _ halive := by
    have halive' : (f (k.proc q)).state.Alive := by simpa using halive
    exact absurd halive'.live hdead'
  child r _ hr := by simp [hparent] at hr
  wait _ := by
    refine ⟨by simp [hparent, hparent'], iff_of_false ?_ ?_, by simpa using hphase⟩
    · intro hzombie
      have hzombie' : (f (k.proc q)).state = .zombie := by simpa using hzombie
      exact hdead' (by rw [hzombie']; trivial)
    · intro hzombie
      exact hdead (by rw [hzombie]; trivial)
  orphan hlive := absurd hlive hdead
  unforked _ _ := id

theorem change_dead (inv : Inv S.img w) (on : On l h w) (hheld : l.held (.proc q))
    (hdead : ¬ (w.kernel.state q).Live) (hparent : w.kernel.parent q = none)
    (hdead' : ¬ (f (w.kernel.proc q)).state.Live)
    (hparent' : (f (w.kernel.proc q)).parent = none)
    (hkilled : (f (w.kernel.proc q)).killed = 0)
    (hserial : (g (w.kernel.shadow q)).serial = w.kernel.serial q)
    (hphase : (g (w.kernel.shadow q)).phase = .armed → w.kernel.phase q = .armed)
    (hmove : (f (w.kernel.proc q)).state = w.kernel.state q ∨
      StateMove l.ctx q w.kernel (w.kernel.state q) (f (w.kernel.proc q)).state)
    (hused : (f (w.kernel.proc q)).state = .used →
      w.kernel.serial q ≠ 0 ∧ (f (w.kernel.proc q)).pid = pidOf (w.kernel.serial q)) :
    Change S l w ((w.kernel.setProc q f).setShadow q g) := by
  have sw : SlotWrite q w.kernel ((w.kernel.setProc q f).setShadow q g) :=
    (SlotWrite.setProc f).trans (.setShadow g)
  have owed : SlotOwed S l.ctx l.held q w.kernel ((w.kernel.setProc q f).setShadow q g) :=
    owed_dead hdead hparent hdead' hparent' hphase
  have hnot : (f (w.kernel.proc q)).state ≠ .running := by
    intro hrun
    exact hdead' (by rw [hrun]; trivial)
  refine sw.change inv on hheld (inv.data.dead hdead hdead' hparent' hkilled hserial hused)
    (sw.others owed hheld (.inr (.same rfl rfl rfl)) fun _ => ⟨rfl, rfl⟩)
    (.inr (.inl fun hrun => hdead (by rw [hrun]; trivial))) (fun harmed => ?_)
    (fun _ halive => ?_) ?_
  · refine (inv.armed (hphase (by simpa using harmed))).imp (fun hsleep => ?_) id
    exact absurd (by rw [hsleep.1]; trivial) hdead
  · have halive' : (f (w.kernel.proc q)).state.Alive := by simpa using halive
    exact absurd halive'.live hdead'
  · simp only [Kernel.setShadow_state, Kernel.setProc_state, Function.update_self]
    exact hmove.imp id fun hmove => ⟨hnot, hmove⟩

theorem frame_dead {full : Prop} (hne : c ≠ .proc q) (hdead : ¬ (k.state q).Live)
    (hparent : k.parent q = none) (hdead' : ¬ (f (k.proc q)).state.Live)
    (hparent' : (f (k.proc q)).parent = none)
    (hphase : (g (k.shadow q)).phase = .armed → k.phase q = .armed) :
    Frame S full c (fun _ => False) k ((k.setProc q f).setShadow q g) :=
  ((SlotWrite.setProc f).trans (.setShadow g)).frame
    (owed_dead hdead hparent hdead' hparent' hphase) hne id (.same rfl rfl rfl) ⟨rfl, rfl⟩
    fun r _ hr => by simp [hparent] at hr

end Dead

end Xv6Kernel.Process
