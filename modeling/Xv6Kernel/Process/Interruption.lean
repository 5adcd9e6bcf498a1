import Xv6Kernel.Process.FirstTurns

/-!
# A timer interrupt in `forkret`

The interrupt makes the process yield after it has released its lock, so that `swtch`
saves the registers of `sched` over the entry function.
-/

namespace Xv6Kernel.Process

open Xv6Kernel.Foundation Xv6Kernel.Mm

variable {img : Image} {quiet : Bool} {w : World Unit} {k k' : Kernel}
  {proc : Option Slot} {cur : Ctx Unit} {sie : Bool} {p q : Slot} {α : Type}
  {saved : Ctx Unit → Code Unit Empty}

/-! ## The interrupt -/

/-- `timer_interrupt` counts and prints. -/
def Kernel.ticked (k : Kernel) : Kernel :=
  { k with ticks := k.ticks + 1 }.print ("tick " ++ decimal (k.ticks + 1) ++ "\n")

theorem noted_ticked (k : Kernel) : Noted p k k.ticked := by
  have counted : Noted p k { k with ticks := k.ticks + 1 } :=
    ⟨rfl, rfl, rfl, fun _ _ => rfl, rfl, ⟨rfl, rfl⟩⟩
  exact counted.trans (noted_print _)

variable (img quiet) in
theorem alone_timerInterrupt (idles : w.Idles k proc cur sie)
    (hawake : ∀ q, (k.proc q).state ≠ .sleeping) :
    ∃ w', Alone (platform img quiet) () timerInterrupt w (.ok ((), w')) ∧
      w'.Idles k.ticked proc cur sie := by
  let k₁ := { k with ticks := k.ticks + 1 }
  let w₁ := w.withKernel k₁
  have idles₁ : w₁.Idles k₁ proc cur sie := idles.withKernel k₁
  have hfree := idles₁.rests.free
  have hwakeup : Alone (platform img quiet) () (wakeup (some .ticks)) (w₁.taken () .ticks)
      (.ok ((), w₁.taken () .ticks)) :=
    alone_wakeup_awake _ (World.off_taken idles₁.steady .ticks)
      (fun q => (World.lock_taken_other (by simp)).trans (hfree _)) hawake
  have hback : Alone (platform img quiet) () (release .ticks) (w₁.taken () .ticks)
      (.ok ((), (w₁.noted ()).withKernel k₁)) := alone_giveBack idles₁.steady (hfree _) k₁
  have idles₂ := idles₁.noted.withKernel k₁
  obtain ⟨w₃, hprint, idles₃⟩ := alone_printf_idle img quiet idles₂
    ("tick " ++ decimal k₁.ticks ++ "\n")
  exact ⟨w₃, (idles.write fun k => { k with ticks := k.ticks + 1 }).bind
    ((alone_acquire (hfree _)).bind (hwakeup.bind (hback.bind
      ((idles₂.read (·.ticks)).bind hprint)))), idles₃⟩

/-! ## kerneltrap -/

/-- The end of `kerneltrap`. -/
def afterInterrupt (img : Image) (sepc : Word) (sstatus : Sstatus) : Code Unit Unit := do
  if (← myproc).isSome then
    yield img
  writeCsr fun c => { c with sepc }
  writeCsr fun c => { c with sstatus }

variable (img quiet) in
/-- From the entry of a timer interrupt to the end of `timer_interrupt`. -/
theorem leads_kernelvec {next : Unit → Code Unit α} (pc : Word)
    (idles : w.Idles k proc cur true) (hawake : ∀ q, (k.proc q).state ≠ .sleeping) :
    ∃ w' sepc sstatus, w'.Idles k.ticked proc cur false ∧
      ∀ R : Code Unit α → World Unit → Prop,
        (∀ {β : Type} {program : Code Unit β} {value : β} {w w' : World Unit}
          {next : β → Code Unit α},
          Alone (platform img quiet) () program w (.ok (value, w')) →
            R (next value) w' → R (program >>= next) w) →
        R (afterInterrupt img sepc sstatus >>= fun _ => sret >>= next) w' →
          R (kernelvec img >>= next) (trapEntry pc () w) := by
  let w₁ := trapEntry pc () w
  have idles₁ : w₁.Idles k proc cur false :=
    ⟨idles.kernel, ⟨idles.rests.noff, idles.rests.free⟩, idles.proc, idles.cur,
      by simp [w₁, trapEntry, World.setCsr]⟩
  have hcsr : w₁.csr () =
      { sstatus := { sie := false, spie := (w.csr ()).sstatus.sie, spp := true }
        sepc := pc
        scause := timerCause } := by
    simp [w₁, trapEntry, World.setCsr]
  obtain ⟨w₂, hinterrupt, idles₂⟩ := alone_timerInterrupt img quiet idles₁ hawake
  refine ⟨w₂, (w₁.csr ()).sepc, (w₁.csr ()).sstatus, idles₂, fun R lead hR => ?_⟩
  have hsepc : Alone (platform img quiet) () (readCsr (·.sepc) : Code Unit Word) w₁
      (.ok ((w₁.csr ()).sepc, w₁)) := alone_act _
  have hsstatus : Alone (platform img quiet) () (readCsr (·.sstatus) : Code Unit Sstatus) w₁
      (.ok ((w₁.csr ()).sstatus, w₁)) := alone_act _
  have hscause : Alone (platform img quiet) () (readCsr (·.scause) : Code Unit Word) w₁
      (.ok (timerCause, w₁)) := by
    have hrun : Alone (platform img quiet) () (readCsr (·.scause) : Code Unit Word) w₁
        (.ok ((w₁.csr ()).scause, w₁)) := alone_act _
    rwa [hcsr] at hrun
  have hintr : Alone (platform img quiet) () (intrGet : Code Unit Bool) w₁
      (.ok (false, w₁)) := by
    have hrun : Alone (platform img quiet) () (intrGet : Code Unit Bool) w₁
        (.ok ((w₁.csr ()).sstatus.sie, w₁)) := alone_act _
    rwa [idles₁.sie] at hrun
  have hspp : (w₁.csr ()).sstatus.spp = true := by rw [hcsr]
  simp only [kernelvec, kerneltrap, bind_assoc]
  refine lead hsepc (lead hsstatus (lead hscause ?_))
  simp only [hspp, Bool.not_true, Bool.false_eq_true, if_false, bind_assoc]
  refine lead hintr ?_
  have hbit : timerCause.getLsbD 63 = true := by decide
  simp only [Bool.false_eq_true, if_false, hbit, if_true, bind_assoc, devintr]
  refine lead hscause ?_
  have hexternal : timerCause ≠ externalCause := by decide
  simp only [hexternal, if_false, if_true, bind_assoc]
  refine lead hinterrupt ?_
  have htwo : (2 : CInt) ≠ 0 := by decide
  simp only [pure_bind, htwo, if_false, if_true]
  simpa only [afterInterrupt, bind_assoc] using hR

variable (img quiet) in
/-- With no process on the hart the interrupt comes straight back. -/
theorem alone_kernelvec (pc : Word) (idles : w.Idles k none cur true)
    (hawake : ∀ q, (k.proc q).state ≠ .sleeping) :
    ∃ w', Alone (platform img quiet) () (kernelvec img) (trapEntry pc () w) (.ok ((), w')) ∧
      w'.kernel = k.ticked := by
  obtain ⟨w₁, sepc, sstatus, idles₁, hlead⟩ := leads_kernelvec (α := Unit) img quiet pc idles
    hawake
  have hwrite : ∀ (w : World Unit) f, Alone (platform img quiet) () (writeCsr f : Code Unit Unit)
      w (.ok ((), w.setCsr () f)) := fun _ _ => alone_act _
  let w₂ := ((w₁.noted ()).setCsr () fun c => { c with sepc }).setCsr ()
    fun c => { c with sstatus }
  have hafter : Alone (platform img quiet) () (afterInterrupt img sepc sstatus) w₁
      (.ok ((), w₂)) := by
    refine idles₁.myproc.bind ?_
    simp only [Option.isSome_none, Bool.false_eq_true, if_false]
    exact (hwrite _ _).bind (hwrite _ _)
  have hsret : Alone (platform img quiet) () (sret >>= pure) w₂ (.ok ((), _)) :=
    (hwrite _ _).bind (.done ..)
  have hrun := hlead (fun code w => Alone (platform img quiet) () code w (.ok ((), _)))
    (fun hprogram hrest => hprogram.bind hrest) (hafter.bind hsret)
  rw [bind_pure] at hrun
  exact ⟨_, hrun, idles₁.kernel⟩

/-- What `kernelvec` does when the process comes back to `yield`. -/
def afterTrap (sepc : Word) (sstatus : Sstatus) (code : Code Unit Empty) (_ : Unit) :
    Code Unit Empty := do
  writeCsr fun c => { c with sepc }
  writeCsr fun c => { c with sstatus }
  sret
  code

variable (img quiet saved) in
/-- A timer interrupt takes the hart from a process. -/
theorem leads_tick {regs : Context} (code : Code Unit Empty)
    (idles : w.Idles k (some p) (.proc p) true) (hwindow : quiet = true → ¬ inWindow () w)
    (hawake : ∀ q, (k.proc q).state ≠ .sleeping) (hregs : InSched img p regs) :
    ∃ w' k' sepc sstatus, Reachable (platform img quiet) (lone w code saved)
        (lone w' (saved (.cpu ())) (Function.update saved (.proc p)
          (afterSched false (afterYield p (afterTrap sepc sstatus code))))) ∧
      w'.Guards ((k'.setProc p fun s => { s with state := .runnable }).switched p regs)
        (some p) (.cpu ()) p false ∧ Noted p k k' := by
  obtain ⟨w₂, sepc, sstatus, idles₂, hlead⟩ := leads_kernelvec img quiet 0 idles
    hawake
  obtain ⟨w₃, hyield, guards⟩ := leads_yield img quiet saved
    (afterTrap sepc sstatus code) idles₂.noted hregs
  refine ⟨w₃, k.ticked, sepc, sstatus, (leads_trap 0 idles.sie hwindow).trans ?_, guards,
    noted_ticked k⟩
  refine hlead (fun code' w' => Reachable (platform img quiet) (lone w' code' saved) _)
    (fun hrun htail => (leads_alone hrun).trans htail) ?_
  simp only [afterInterrupt, bind_assoc]
  refine (leads_alone idles₂.myproc).trans ?_
  simp only [Option.isSome_some, if_true, bind_assoc]
  exact hyield

/-! ## Coming back -/

theorem resumed_saved (hra : (w.kernel.proc p).context.ra ≠ img.forkret) :
    (platform img quiet).resumed saved (.proc p) w = saved (.proc p) := by
  have hfresh : (platform img quiet).fresh (.proc p) w = none := if_neg hra
  rw [Platform.resumed, hfresh]
  rfl

variable (img quiet saved sie) in
/-- A process comes back to the caller of `yield`. -/
theorem leads_resumed (next : Unit → Code Unit Empty) {intena : Bool}
    (guards : w.Guards k (some p) (.proc p) p intena) :
    ∃ w', Reachable (platform img quiet)
        (lone w (afterSched sie (afterYield p next)) saved) (lone w' (next ()) saved) ∧
      w'.Idles k (some p) (.proc p) sie := by
  let w₁ : World Unit := w.setCpu () fun c => { c with intena := sie }
  have guards₁ : w₁.Guards k (some p) (.proc p) p sie :=
    ⟨guards.kernel, guards.lock, guards.free,
      by simpa [w₁, World.setCpu] using guards.noff, by simp [w₁, World.setCpu], guards.sie,
      by simpa [w₁, World.setCpu] using guards.proc, guards.cur⟩
  have hset : Alone (platform img quiet) () (writeCpu fun c => { c with intena := sie } :
      Code Unit Unit) w (.ok ((), w₁)) := alone_act _
  exact ⟨_, (leads_alone hset).trans (leads_alone guards₁.release), guards₁.dropped⟩

theorem World.Idles.setCsr (idles : w.Idles k proc cur sie) (f : Csr → Csr) :
    (w.setCsr () f).Idles k proc cur (f (w.csr ())).sstatus.sie :=
  ⟨idles.kernel, ⟨idles.rests.noff, idles.rests.free⟩, idles.proc, idles.cur,
    by simp [World.setCsr]⟩

variable (img quiet saved) in
/-- `kernelvec` goes back to what was interrupted. -/
theorem leads_sret (sepc : Word) (sstatus : Sstatus) (code : Code Unit Empty)
    (idles : w.Idles k proc cur sie) :
    ∃ w' sie', Reachable (platform img quiet)
        (lone w (afterTrap sepc sstatus code ()) saved) (lone w' code saved) ∧
      w'.Idles k proc cur sie' := by
  have hwrite : ∀ (w : World Unit) f, Alone (platform img quiet) () (writeCsr f : Code Unit Unit)
      w (.ok ((), w.setCsr () f)) := fun _ _ => alone_act _
  exact ⟨_, _, (leads_alone (hwrite _ _)).trans ((leads_alone (hwrite _ _)).trans
    (leads_alone (hwrite _ _))), ((idles.setCsr _).setCsr _).setCsr _⟩

variable (img quiet saved) in
theorem leads_skipped (skipped : List Slot) (found : Bool) (next : Bool → Code Unit Empty)
    (idles : w.Idles k none (.cpu ()) sie)
    (hskip : ∀ q ∈ skipped, (k.proc q).state ≠ .runnable) :
    ∃ w', Reachable (platform img quiet) (lone w (schedScan skipped found >>= next) saved)
        (lone w' (next found) saved) ∧
      w'.Idles k none (.cpu ()) sie := by
  induction skipped generalizing w with
  | nil => exact ⟨w, .refl, idles⟩
  | cons q skipped ih =>
    obtain ⟨w', hreach, idles'⟩ := ih idles.noted fun r hr => hskip r (List.mem_cons_of_mem _ hr)
    have taken := idles.taken q
    refine ⟨w', .trans ?_ hreach, idles'⟩
    simp only [schedScan, bind_assoc]
    refine (leads_alone (alone_acquire (idles.rests.free _))).trans ?_
    refine (leads_alone (taken.readProc q (·.state))).trans ?_
    rw [if_neg (hskip q List.mem_cons_self)]
    simp only [bind_assoc]
    have hback : Alone (platform img quiet) () (release (.proc q)) (w.taken () (.proc q))
        (.ok ((), _)) := taken.release
    rw [World.dropped_taken idles.steady (idles.rests.free _)] at hback
    exact leads_alone hback

/-- What would follow the endless loop of `initproc`. -/
def afterInit (never : Empty) : Code Unit Empty :=
  (pure never.elim : Code Unit Unit) >>= fun _ => afterEntry

variable (quiet) in
/-- The scheduler gets to `initproc` again, which goes on in its loop. -/
theorem leads_initResumed (skipped : List Slot) (idles : w.Idles k none (.cpu ()) sie)
    (hskip : ∀ q ∈ skipped, (k.proc q).state ≠ .runnable)
    (hstate : (k.proc slot₀).state = .runnable) (hcontext : (k.proc slot₀).context = frameOf slot₀)
    (hsaved : saved (.proc slot₀) = nextTurn) :
    ∃ w', Reachable (platform sampleImage quiet)
        (lone w (schedScan skipped true >>= nextPass) saved)
        (lone w' (Program.perform .initLoop >>= afterInit) (Function.update saved (.cpu ())
          (afterRun slot₀ (slot₁ :: slot₂ :: slots.drop 3) nextPass))) ∧
      w'.Idles (k.setProc slot₀ fun s => { s with state := .running }) (some slot₀) (.proc slot₀)
        false := by
  obtain ⟨w₁, hend, idles₁⟩ := leads_skipped sampleImage quiet saved skipped true
    nextPass idles hskip
  obtain ⟨w₂, hpass, idles₂⟩ := leads_pass sampleImage quiet saved idles₁
  obtain ⟨w₃, hdispatch, guards₃⟩ := leads_dispatch sampleImage quiet saved []
    (slot₁ :: slot₂ :: slots.drop 3) false nextPass idles₂ (by simp) hstate
  have hra : (w₃.kernel.proc slot₀).context.ra ≠ sampleImage.forkret := by
    rw [guards₃.kernel, Kernel.setProc_proc_self, hcontext]
    decide
  rw [resumed_saved hra, hsaved, List.nil_append, ← slots_eq] at hdispatch
  let saved₃ := Function.update saved (.cpu ())
    (afterRun slot₀ (slot₁ :: slot₂ :: slots.drop 3) nextPass)
  obtain ⟨w₄, hresumed, idles₄⟩ := leads_resumed sampleImage quiet false saved₃
    (afterInitYield afterInit) guards₃
  have hentry : Reachable (platform sampleImage quiet)
      (lone w₄ (afterInitYield afterInit ()) saved₃)
      (lone w₄ (Program.perform .initLoop >>= afterInit) saved₃) := leads_alone alone_atEntry
  exact ⟨w₄, hend.trans (hpass.trans (hdispatch.trans (hresumed.trans hentry))), idles₄⟩

theorem running_apart (p : Slot) (k : Kernel) :
    Apart p k (k.setProc p fun s => { s with state := .running }) :=
  apart_setProc _ rfl ⟨rfl, rfl⟩

variable (quiet) in
/-- It still finds no child. -/
theorem leads_initTurn (skipped : List Slot) (idles : w.Idles k none (.cpu ()) sie)
    (hskip : ∀ q ∈ skipped, (k.proc q).state ≠ .runnable)
    (hstate : (k.proc slot₀).state = .runnable) (hcontext : (k.proc slot₀).context = frameOf slot₀)
    (hnone : ∀ q, (k.proc q).parent ≠ some slot₀) (hsaved : saved (.proc slot₀) = nextTurn) :
    ∃ w' k' saved', Reachable (platform sampleImage quiet)
        (lone w (schedScan skipped true >>= nextPass) saved)
        (lone w' (schedScan (slot₁ :: slot₂ :: slots.drop 3) true >>= nextPass) saved') ∧
      w'.Idles k' none (.cpu ()) false ∧ Apart slot₀ k k' ∧
      (k'.proc slot₀).state = .runnable ∧ (k'.proc slot₀).context = frameOf slot₀ ∧
      saved' (.proc slot₀) = nextTurn ∧
      ∀ q, q ≠ slot₀ → saved' (.proc q) = saved (.proc q) := by
  obtain ⟨w₁, hresumed, idles₁⟩ := leads_initResumed quiet skipped idles hskip hstate hcontext
    hsaved
  have running := running_apart slot₀ k
  let saved₁ := Function.update saved (.cpu ())
    (afterRun slot₀ (slot₁ :: slot₂ :: slots.drop 3) nextPass)
  obtain ⟨w₂, k₂, hloop, guards₂, noted⟩ := leads_initLoop sampleImage quiet saved₁ afterInit
    idles₁ (fun q => by
      by_cases hq : q = slot₀
      · rw [hq, running.parent]
        exact hnone slot₀
      · rw [running.proc q hq]
        exact hnone q) inSched_frameOf.1
  rw [show saved₁ (.cpu ()) = afterRun slot₀ (slot₁ :: slot₂ :: slots.drop 3) nextPass from
    Function.update_self ..] at hloop
  obtain ⟨w₃, hback, idles₃⟩ := leads_back sampleImage quiet (Function.update saved₁ (.proc slot₀)
    (afterSched false (afterYield slot₀ (afterInitYield afterInit))))
    (slot₁ :: slot₂ :: slots.drop 3) nextPass guards₂
  refine ⟨w₃, _, _, hresumed.trans (hloop.trans hback), idles₃,
    (running.trans noted.apart).trans (switched_apart _),
    by simp [Kernel.switched], by simp [Kernel.switched], Function.update_self ..,
    fun q hq => ?_⟩
  exact (Function.update_of_ne (by simpa using hq) ..).trans (Function.update_of_ne (by simp) ..)

/-! ## The second process of `main` -/

/-- The second process of `main` has yielded in `forkret`. -/
structure Interrupted (k : Kernel) : Prop where
  state₀ : (k.proc slot₀).state = .runnable
  context₀ : (k.proc slot₀).context = frameOf slot₀
  state₁ : (k.proc slot₁).state = .zombie
  state₂ : (k.proc slot₂).state = .runnable
  context₂ : (k.proc slot₂).context = frameOf slot₂
  entry₂ : (k.shadow slot₂).entry = sampleEntry
  unused : ∀ q ∈ slots.drop 3, (k.proc q).state ≠ .runnable
  orphans : ∀ q, (k.proc q).parent = none

theorem slot_cases (q : Slot) : q = slot₀ ∨ q = slot₁ ∨ q = slot₂ ∨ q ∈ slots.drop 3 := by
  have hmem : q ∈ slots := List.mem_finRange q
  rw [slots_eq] at hmem
  simpa using hmem

theorem Turned.interrupted {k₀ k₁ k₂ k₃ : Kernel} (turned : Turned k₀)
    (apart : Apart slot₁ k₀ k₁) (hzombie : (k₁.proc slot₁).state = .zombie)
    (noted : Noted slot₂ ((k₁.setProc slot₂ fun s =>
      { s with state := .running }).entering slot₂ true) k₂)
    (hk₃ : k₃ = (k₂.setProc slot₂ fun s => { s with state := .runnable }).switched slot₂
      (frameOf slot₂)) : Interrupted k₃ := by
  subst hk₃
  have running : Apart slot₂ k₁ (k₁.setProc slot₂ fun s => { s with state := .running }) :=
    apart_setProc _ rfl ⟨rfl, rfl⟩
  have apart₂ := (running.trans (noted_setShadow _ rfl).apart).trans (noted.apart.trans
    (switched_apart (frameOf slot₂)))
  have hslot₀ := (apart₂.proc slot₀ (by decide)).trans (apart.proc slot₀ (by decide))
  have hentry : (k₂.shadow slot₂).entry = sampleEntry := by
    rw [noted.entry, Kernel.entering, Kernel.setShadow_shadow_self]
    change (k₁.shadow slot₂).entry = sampleEntry
    rw [apart.shadow slot₂ (by decide)]
    exact turned.second.entry
  refine ⟨?_, ?_, ?_, ?_, ?_, hentry, fun q hq => ?_, ?_⟩
  · rw [hslot₀]
    exact turned.state
  · rw [hslot₀]
    exact turned.context
  · rw [apart₂.proc slot₁ (by decide)]
    exact hzombie
  · simp [Kernel.switched]
  · simp [Kernel.switched]
  · have hne : ∀ p, p ∉ slots.drop 3 → q ≠ p := fun p hp heq => hp (heq ▸ hq)
    rw [apart₂.proc q (hne _ not_mem_drop.2.2), apart.proc q (hne _ not_mem_drop.2.1),
      turned.unused q hq]
    simp
  · exact apart₂.orphans (apart.orphans turned.orphans)

/-- The first process of `main` turns interrupts on and exits, the second is started with
interrupts on and yields to the timer in `forkret`. -/
theorem leads_interrupted : ∃ m m₀ k₀ w k saved sepc sstatus,
    Reachable (platform sampleImage false) (boot sampleImage () [sampleEntry, sampleEntry] m) m₀ ∧
    Hands sampleImage false slot₂ k₀ m₀
      (lone w (schedScan (slots.drop 3) true >>= nextPass) saved) ∧
    (k₀.proc slot₀).state = .runnable ∧ (k₀.proc slot₂).state = .runnable ∧
    w.Idles k none (.cpu ()) false ∧ saved (.proc slot₀) = nextTurn ∧
    saved (.proc slot₂) =
      afterSched false (afterYield slot₂ (afterTrap sepc sstatus (afterRelease slot₂))) ∧
    Interrupted k := by
  obtain ⟨m, w₀, k₀, saved₀, next, hclient, idles₀, hcpu, hsaved₀, k, turned, apart₀⟩ :=
    leads_firstClient false
  obtain ⟨w₁, hon, idles₁⟩ := leads_intrOn sampleImage false saved₀ next idles₀
  obtain ⟨w₂, k₂, saved₂, hexited, idles₂, hsaved₂, apart₂, hzombie⟩ :=
    leads_exited next idles₁ hcpu hsaved₀ turned (apart₀.trans (noted_setShadow _ rfl).apart)
  have second : Newborn sampleImage sampleEntry slot₂ k₂ :=
    apart₂.newborn (by decide) turned.second
  obtain ⟨w₃, hnewborn, idles₃⟩ := hands_newborn sampleImage false saved₂ [] (slots.drop 3) true
    nextPass idles₂ (by simp) second.state second.ra
  let k₃ := (k₂.setProc slot₂ fun s => { s with state := .running }).entering slot₂ true
  have hawake : ∀ q, (k₃.proc q).state ≠ .sleeping := by
    intro q
    have hother : q ≠ slot₂ → k₃.proc q = k₂.proc q := fun hq => Function.update_of_ne hq ..
    rcases slot_cases q with rfl | rfl | rfl | hq
    · rw [hother (by decide), apart₂.proc slot₀ (by decide), turned.state]
      simp
    · rw [hother (by decide), hzombie]
      simp
    · simp [k₃, Kernel.entering]
    · have hne : ∀ p, p ∉ slots.drop 3 → q ≠ p := fun p hp heq => hp (heq ▸ hq)
      rw [hother (hne _ not_mem_drop.2.2), apart₂.proc q (hne _ not_mem_drop.2.1),
        turned.unused q hq]
      simp
  obtain ⟨w₄, k₄, sepc, sstatus, htick, guards, noted⟩ := leads_tick sampleImage false
    (Function.update saved₂ (.cpu ()) (afterRun slot₂ (slots.drop 3) nextPass))
    (afterRelease slot₂) idles₃ (by simp) hawake inSched_frameOf.2.2
  rw [Function.update_self] at htick
  obtain ⟨w₅, hback, idles₅⟩ := leads_back sampleImage false (Function.update
    (Function.update saved₂ (.cpu ()) (afterRun slot₂ (slots.drop 3) nextPass)) (.proc slot₂)
    (afterSched false (afterYield slot₂ (afterTrap sepc sstatus (afterRelease slot₂)))))
    (slots.drop 3) nextPass guards
  have hwaits : (k₂.proc slot₀).state = .runnable := by
    rw [apart₂.proc slot₀ (by decide)]
    exact turned.state
  refine ⟨m, _, k₂, w₅, _, _, sepc, sstatus, hclient.trans (hon.trans hexited),
    hnewborn.after (htick.trans hback), hwaits, second.state, idles₅, ?_,
    Function.update_self .., turned.interrupted apart₂ hzombie noted rfl⟩
  rw [Function.update_of_ne (by decide), Function.update_of_ne (by simp)]
  exact hsaved₂

/-- `initproc` has its second turn, and the process in `forkret` comes back to the
interrupt. -/
theorem leads_reentered : ∃ m m₀ k₀ m₁ k₁ w k saved sie,
    Reachable (platform sampleImage false) (boot sampleImage () [sampleEntry, sampleEntry] m) m₀ ∧
    Hands sampleImage false slot₂ k₀ m₀ m₁ ∧
    Hands sampleImage false slot₂ k₁ m₁ (lone w (afterRelease slot₂) saved) ∧
    (k₀.proc slot₀).state = .runnable ∧ (k₀.proc slot₂).state = .runnable ∧
    (k₁.proc slot₂).state = .runnable ∧
    w.Idles k (some slot₂) (.proc slot₂) sie ∧ (k.proc slot₂).context = frameOf slot₂ ∧
    (k.shadow slot₂).entry = sampleEntry := by
  obtain ⟨m, m₀, k₀, w₀, k, saved, sepc, sstatus, hreach, hinterrupted, hwaits₀, hwaits₂, idles₀,
    hsaved₀, hsaved₂, turned⟩ := leads_interrupted
  obtain ⟨w₆, k₆, saved₆, hturn, idles₆, apart, -, -, -, hothers⟩ := leads_initTurn false
    (slots.drop 3) idles₀ turned.unused turned.state₀ turned.context₀
    (fun q => by rw [turned.orphans q]; nofun) hsaved₀
  have hslot₁ := apart.proc slot₁ (by decide)
  have hslot₂ := apart.proc slot₂ (by decide)
  -- the process in `forkret`
  obtain ⟨w₇, hsecond, guards₇⟩ := hands_dispatch sampleImage false saved₆ [slot₁]
    (slots.drop 3) true nextPass idles₆ (fun q hq => by
      rw [List.mem_singleton.mp hq, hslot₁, turned.state₁]
      nofun) (by rw [hslot₂]; exact turned.state₂)
  have hcontext : (w₇.kernel.proc slot₂).context = frameOf slot₂ := by
    rw [guards₇.kernel, Kernel.setProc_proc_self, hslot₂]
    exact turned.context₂
  have hra₂ : (w₇.kernel.proc slot₂).context.ra ≠ sampleImage.forkret := by
    rw [hcontext]
    decide
  have hsaved : saved₆ (.proc slot₂) =
      afterSched false (afterYield slot₂ (afterTrap sepc sstatus (afterRelease slot₂))) :=
    (hothers slot₂ (by decide)).trans hsaved₂
  rw [resumed_saved hra₂, hsaved] at hsecond
  let saved₇ := Function.update saved₆ (.cpu ()) (afterRun slot₂ (slots.drop 3) nextPass)
  obtain ⟨w₈, hagain, idles₈⟩ := leads_resumed sampleImage false false saved₇
    (afterTrap sepc sstatus (afterRelease slot₂)) guards₇
  obtain ⟨w₉, sie, hsret, idles₉⟩ := leads_sret sampleImage false saved₇ sepc sstatus
    (afterRelease slot₂) idles₈
  refine ⟨m, m₀, k₀, _, _, w₉, _, saved₇, sie, hreach, hinterrupted.after hturn,
    hsecond.after (hagain.trans hsret), hwaits₀, hwaits₂, ?_, idles₉, ?_, ?_⟩
  · rw [hslot₂]
    exact turned.state₂
  · rw [← guards₇.kernel]
    exact hcontext
  · have hshadow := apart.shadow slot₂ (by decide)
    exact (congrArg Shadow.entry hshadow).trans turned.entry₂

end Xv6Kernel.Process
