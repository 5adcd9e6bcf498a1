import Xv6Kernel.Process.Creation
import Xv6Kernel.Process.Runs

/-!
# Runs on one hart, step by step

What a hart that is left alone does with the locks and the data, and the steps of the
machine that are not its own: choices, switches and traps.  Single runs are put
together from these.
-/

namespace Xv6Kernel.Process

open Xv6Kernel.Foundation Xv6Kernel.Mm

variable {img : Image} {quiet : Bool} {w : World Unit} {k : Kernel} {proc : Option Slot}
  {cur : Ctx Unit} {sie intena : Bool} {p q : Slot} {α β : Type}
  {saved : Ctx Unit → Code Unit Empty}

/-! ## The states of a lone hart -/

/-- The hart holds nothing. -/
structure World.Idles (w : World Unit) (k : Kernel) (proc : Option Slot) (cur : Ctx Unit)
    (sie : Bool) : Prop where
  kernel : w.kernel = k
  rests : w.Rests ()
  proc : (w.cpus ()).proc = proc
  cur : w.cur () = cur
  sie : (w.csr ()).sstatus.sie = sie

/-- The hart holds the lock of `p` only. -/
structure World.Guards (w : World Unit) (k : Kernel) (proc : Option Slot) (cur : Ctx Unit)
    (p : Slot) (intena : Bool) : Prop where
  kernel : w.kernel = k
  lock : w.lock (.proc p) = ⟨some (), some ()⟩
  free : ∀ lk, lk ≠ .proc p → w.lock lk = ⟨none, none⟩
  noff : (w.cpus ()).noff = 1
  intena : (w.cpus ()).intena = intena
  sie : (w.csr ()).sstatus.sie = false
  proc : (w.cpus ()).proc = proc
  cur : w.cur () = cur

theorem World.Idles.steady (idles : w.Idles k proc cur sie) : w.Steady () :=
  .inl idles.rests.noff

theorem World.Idles.noted (idles : w.Idles k proc cur sie) : (w.noted ()).Idles k proc cur sie :=
  ⟨idles.kernel, idles.rests.noted, by simpa [World.noted, World.setCpu] using idles.proc,
    idles.cur, idles.sie⟩

theorem World.Idles.withKernel (idles : w.Idles k proc cur sie) (k' : Kernel) :
    (w.withKernel k').Idles k' proc cur sie :=
  ⟨rfl, ⟨idles.rests.noff, idles.rests.free⟩, idles.proc, idles.cur, idles.sie⟩

theorem World.Guards.withKernel (guards : w.Guards k proc cur p intena) (k' : Kernel) :
    (w.withKernel k').Guards k' proc cur p intena :=
  ⟨rfl, guards.lock, guards.free, guards.noff, guards.intena, guards.sie, guards.proc,
    guards.cur⟩

theorem World.Guards.off (guards : w.Guards k proc cur p intena) : w.Off () :=
  ⟨by rw [guards.noff], guards.sie⟩

theorem World.Idles.taken (idles : w.Idles k proc cur sie) (p : Slot) :
    (w.taken () (.proc p)).Guards k proc cur p sie where
  kernel := idles.kernel
  lock := World.lock_taken_self _
  free lk hne := (World.lock_taken_other hne).trans (idles.rests.free lk)
  noff := by
    simp [World.taken, World.pushed, World.setLock, World.setCpu, World.setSie, World.setCsr,
      idles.rests.noff]
  intena := by
    simp [World.taken, World.pushed, World.setLock, World.setCpu, World.setSie, World.setCsr,
      idles.rests.noff, idles.sie]
  sie := by
    simp [World.taken, World.pushed, World.setLock, World.setCpu, World.setSie, World.setCsr]
  proc := by
    simpa [World.taken, World.pushed, World.setLock, World.setCpu, World.setSie,
      World.setCsr] using idles.proc
  cur := idles.cur

theorem World.Guards.dropped (guards : w.Guards k proc cur p intena) :
    (w.dropped () (.proc p)).Idles k proc cur intena := by
  have hlock : ∀ lk, Function.update w.lock (.proc p) ⟨none, none⟩ lk = ⟨none, none⟩ := by
    intro lk
    by_cases heq : lk = .proc p
    · rw [heq, Function.update_self]
    · rw [Function.update_of_ne heq, guards.free lk heq]
  have hproc := guards.proc
  have hsie := guards.sie
  cases hi : intena with
  | false =>
    have hintena := guards.intena
    rw [hi] at hintena
    refine ⟨?_, ⟨?_, fun lk => ?_⟩, ?_, ?_, ?_⟩ <;>
      simp [World.dropped, World.popped, World.setLock, World.setCpu, guards.noff, hintena,
        hproc, hsie, guards.cur, guards.kernel, hlock]
  | true =>
    have hintena := guards.intena
    rw [hi] at hintena
    refine ⟨?_, ⟨?_, fun lk => ?_⟩, ?_, ?_, ?_⟩ <;>
      simp [World.dropped, World.popped, World.setLock, World.setCpu, World.setSie,
        World.setCsr, guards.noff, hintena, hproc, guards.cur, guards.kernel, hlock]

/-- A section under a lock leaves a hart that holds nothing as it was. -/
theorem alone_section {lk : Lock} {body : Code Unit α} {value : α} {k' : Kernel}
    (idles : w.Idles k proc cur sie)
    (hbody : ∀ w' : World Unit, w'.kernel = k →
      Alone (platform img quiet) () body w' (.ok (value, w'.withKernel k'))) :
    ∃ w', Alone (platform img quiet) () (do
      acquire lk
      let answer ← body
      release lk
      return answer) w (.ok (value, w')) ∧ w'.Idles k' proc cur sie := by
  refine ⟨(w.noted ()).withKernel k', ?_, idles.noted.withKernel k'⟩
  refine (alone_acquire (idles.rests.free lk)).bind ((hbody (w.taken () lk)
    idles.kernel).bind ?_)
  exact (alone_giveBack idles.steady (idles.rests.free lk) k').bind (.done ..)

variable (img quiet) in
theorem alone_printf_idle (idles : w.Idles k proc cur sie) (text : String) :
    ∃ w', Alone (platform img quiet) () (printf text) w (.ok ((), w')) ∧
      w'.Idles (k.print text) proc cur sie := by
  have hbegin : Alone (platform img quiet) () beginCall w
      (.ok (k.calls, w.withKernel { k with calls := k.calls + 1 })) := by
    rw [← idles.kernel]
    exact alone_act _
  have hputs : ∀ w' : World Unit, w'.kernel = { k with calls := k.calls + 1 } →
      Alone (platform img quiet) () (Program.forEach text.toList (consputc k.calls)) w'
        (.ok ((), w'.withKernel (k.print text))) := by
    intro w' hk
    rw [Kernel.print, ← hk]
    exact alone_puts _ _
  obtain ⟨w', hprint, idles'⟩ := alone_section
    (idles.withKernel { k with calls := k.calls + 1 }) hputs
  exact ⟨w', hbegin.bind hprint, idles'⟩

/-! ## Steps of the machine -/

theorem leads_choose {next : β → Code Unit Empty} (answer : β) :
    Reachable (platform img quiet) (lone w (choose β >>= next) saved)
      (lone w (next answer) saved) :=
  leads_choice rfl answer

theorem leads_swtch (old new : Ctx Unit) (regs : Context) {next : Unit → Code Unit Empty} :
    Reachable (platform img quiet)
      (lone w (Program.perform (.swtch old new regs) >>= next) saved)
      (lone (transfer old new regs () w)
        ((platform img quiet).resumed saved new (transfer old new regs () w))
        (Function.update saved old (next ()))) :=
  leads_switch rfl

theorem leads_trap {code : Code Unit Empty} (pc : Word)
    (hsie : (w.csr ()).sstatus.sie = true) (hwindow : quiet = true → ¬ inWindow () w) :
    Reachable (platform img quiet) (lone w code saved)
      (lone (trapEntry pc () w) (kernelvec img >>= fun _ => code) saved) :=
  lone_next (.single (.trap (m := lone w code saved) () ⟨hsie, hwindow, pc, rfl⟩))

end Xv6Kernel.Process
