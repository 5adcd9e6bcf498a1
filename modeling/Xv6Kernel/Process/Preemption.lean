import Xv6Kernel.Process.Interruption

/-!
# What an entry function finds

A process starts with `SIE` as the scheduler happened to note it, and with the entry
function that `forkret` reads from its context.
-/

namespace Xv6Kernel.Process

open Xv6Kernel.Foundation Xv6Kernel.Mm

variable {H : Type} [DecidableEq H] {S : Setting H} {entries : List Word} {memory : Memory}
  {m : Config (Instr H) H (Ctx H) (World H)} {h : H}

/-! ## Interrupts in an entry function -/

/-- In its entry function, with no lock held, a process that has not disabled
interrupts has `SIE` set if and only if the lock was taken with `SIE` set when it was
first scheduled, or it has called `intr_on` itself. -/
theorem thread_preemptible_iff (reaches : Reaches S entries memory m)
    {next : Unit → Code H Empty} (hcode : m.code h = .step .atEntry next) :
    ∃ p, m.world.cur h = .proc p ∧ ((m.world.kernel.shadow p).calledOff = false →
      ((m.world.csr h).sstatus.sie = true ↔
        (m.world.kernel.shadow p).startedOn = true ∨
          (m.world.kernel.shadow p).calledOn = true)) := by
  obtain ⟨l, on, p, sie, rfl, home⟩ := reaches.good.called hcode rfl
  refine ⟨p, on.ctx, fun hoff => ?_⟩
  have hsie : (m.world.csr h).sstatus.sie = sie := on.unmasked rfl
  rw [hsie, home.sie hoff, Bool.or_eq_true]

omit [DecidableEq H] in
/-- The first process is in its entry function with interrupts off. -/
theorem reaches_init (quiet : Bool) : ∃ memory,
    ∃ m : Config (Instr Unit) Unit (Ctx Unit) (World Unit),
      Reaches ⟨sampleImage, (), quiet⟩ [sampleEntry, sampleEntry] memory m ∧
      (∃ next, m.code () = .step .atEntry next) ∧ m.world.cur () = .proc slot₀ ∧
      (m.world.kernel.shadow slot₀).calledOff = false ∧
      (m.world.csr ()).sstatus.sie = false := by
  obtain ⟨memory, w, k, saved, hreach, idles, -, k₀, booted, rfl⟩ := leads_init quiet
  have newborn : Newborn sampleImage sampleImage.initTask slot₀ k₀ :=
    booted.peopled.newborn (by simp)
  have hcall : Reachable (platform sampleImage quiet)
      (lone w (Program.perform (.enter sampleImage.initTask) >>= fun _ => afterEntry) saved)
      (lone w (enterBody sampleImage sampleImage.initTask >>= fun _ => afterEntry) saved) :=
    leads_call rfl
  have hbody : enterBody sampleImage sampleImage.initTask =
      (initTask >>= fun never => pure never.elim : Code Unit Unit) := if_pos rfl
  rw [hbody] at hcall
  refine ⟨memory, _, hreach.trans hcall, ⟨_, rfl⟩, idles.cur, ?_, idles.sie⟩
  change (w.kernel.shadow slot₀).calledOff = false
  rw [idles.kernel]
  have hshadow : ∀ k : Kernel, (k.announced.entered slot₀).shadow slot₀ =
      { k.shadow slot₀ with window := false } := by
    intro k
    rw [Kernel.entered, Kernel.setShadow_shadow_self, Kernel.announced]
    split <;> rfl
  rw [hshadow]
  simpa [Kernel.entering] using newborn.calledOff

omit [DecidableEq H] in
theorem thread_preemptible_sample : ∃ memory,
    ∃ m : Config (Instr Unit) Unit (Ctx Unit) (World Unit), ∃ p,
      Reaches ⟨sampleImage, (), false⟩ [sampleEntry, sampleEntry] memory m ∧
      m.world.cur () = .proc p ∧ ((m.world.csr ()).sstatus.sie = true ↔
        (m.world.kernel.shadow p).startedOn = true ∨
          (m.world.kernel.shadow p).calledOn = true) := by
  obtain ⟨memory, m, hreach, ⟨next, hcode⟩, hcur, hoff, -⟩ := reaches_init false
  obtain ⟨p, hp, hiff⟩ := thread_preemptible_iff hreach hcode
  cases hcur.symm.trans hp
  exact ⟨memory, m, slot₀, hreach, hcur, hiff hoff⟩

omit [DecidableEq H] in
/-- `initproc` runs its entry function with interrupts off. -/
theorem thread_not_preemptible : ∃ memory,
    ∃ m : Config (Instr Unit) Unit (Ctx Unit) (World Unit), ∃ p,
      Reaches ⟨sampleImage, (), false⟩ [sampleEntry, sampleEntry] memory m ∧
      (∃ next, m.code () = .step .atEntry next) ∧ m.world.cur () = .proc p ∧
      (m.world.kernel.shadow p).calledOff = false ∧ (m.world.csr ()).sstatus.sie = false := by
  obtain ⟨memory, m, hreach, hcode, hcur, hoff, hsie⟩ := reaches_init false
  exact ⟨memory, m, slot₀, hreach, hcode, hcur, hoff, hsie⟩

/-! ## The entry function -/

/-- If no timer interrupt is taken between the release of the lock in `forkret` and its
last read of `context.s0`, every process runs the function it was created with. -/
theorem runs_entry_function {img : Image} {hart : H}
    (reaches : Reaches ⟨img, hart, true⟩ entries memory m) {fn : Word}
    {next : Unit → Code H Empty} (hcode : m.code h = .step (.enter fn) next) :
    ∃ p, m.world.cur h = .proc p ∧ fn = (m.world.kernel.shadow p).entry := by
  obtain ⟨l, on, p, sie, rfl, -, hentry⟩ := reaches.good.called hcode rfl
  exact ⟨p, on.ctx, hentry rfl⟩

omit [DecidableEq H] in
theorem runs_entry_function_sample : ∃ memory,
    ∃ m : Config (Instr Unit) Unit (Ctx Unit) (World Unit), ∃ p,
      Reaches ⟨sampleImage, (), true⟩ [sampleEntry, sampleEntry] memory m ∧
      m.world.cur () = .proc p ∧
      sampleImage.initTask = (m.world.kernel.shadow p).entry := by
  obtain ⟨memory, w, k, saved, hreach, idles, -⟩ := leads_init true
  obtain ⟨p, hcur, hentry⟩ := runs_entry_function hreach rfl
  exact ⟨memory, _, p, hreach, hcur, hentry⟩

omit [DecidableEq H] in
/-- A process that is interrupted there is sent to its frame pointer. -/
theorem runs_frame_pointer : ∃ memory,
    ∃ m : Config (Instr Unit) Unit (Ctx Unit) (World Unit), ∃ fn next p,
      Reaches ⟨sampleImage, (), false⟩ [sampleEntry, sampleEntry] memory m ∧
      m.code () = .step (.enter fn) next ∧ m.world.cur () = .proc p ∧
      (m.world.kernel.shadow p).entry = sampleEntry ∧ fn = kstackVa p + 0xf58 ∧
      fn ≠ sampleEntry := by
  obtain ⟨memory, _, _, _, _, w, k, saved, sie, hboot, hfirst, hsecond, -, -, -, idles, hcontext,
    hentry⟩ := leads_reentered
  have hreach := hboot.trans (hfirst.reachable.trans hsecond.reachable)
  have hs0 : (k.proc slot₂).context.s0 = kstackVa slot₂ + 0xf58 := by
    rw [hcontext]
    rfl
  obtain ⟨w', henter, idles'⟩ := leads_enter sampleImage false saved idles
    (by rw [hs0]; decide)
  have noted : Noted slot₂ k (k.announced.entered slot₂) :=
    noted_announced.trans (noted_setShadow _ rfl)
  refine ⟨memory, _, _, _, slot₂, hreach.trans henter, rfl, idles'.cur, ?_, hs0, ?_⟩
  · change (w'.kernel.shadow slot₂).entry = sampleEntry
    rw [idles'.kernel, noted.entry, hentry]
  · rw [hs0]
    decide

/-! ## Zombies without a parent -/

/-- A zombie has a parent if and only if a process created it. -/
theorem zombie_parent_iff (reaches : Reaches S entries memory m) :
    ∀ q, m.world.kernel.state q = .zombie →
      (m.world.kernel.parent q ≠ none ↔ m.world.kernel.creator q ≠ none) := by
  intro q hzombie
  have hist := reaches.good.inv.data.hist
  have hlive : (m.world.kernel.state q).Live := by rw [hzombie]; trivial
  constructor
  · intro hparent hcreator
    exact hparent (hist.orphan hlive hcreator)
  · intro hcreator
    obtain ⟨c, hc⟩ := Option.ne_none_iff_exists'.mp hcreator
    obtain ⟨p, hp, -⟩ := hist.parent hlive hc
    rw [hp]
    nofun

omit [DecidableEq H] in
theorem zombie_parent_sample : ∃ memory,
    ∃ m : Config (Instr Unit) Unit (Ctx Unit) (World Unit), ∃ q,
      Reaches ⟨sampleImage, (), false⟩ [sampleEntry, sampleEntry] memory m ∧
      m.world.kernel.state q = .zombie ∧
      (m.world.kernel.parent q ≠ none ↔ m.world.kernel.creator q ≠ none) := by
  obtain ⟨memory, w, k, saved, code, hreach, idles, hzombie, -⟩ := leads_orphan false
  have hstate : w.kernel.state slot₁ = .zombie := by
    rw [idles.kernel]
    exact hzombie
  have reaches : Reaches ⟨sampleImage, (), false⟩ [sampleEntry, sampleEntry] memory
      (lone w code saved) := hreach
  exact ⟨memory, lone w code saved, slot₁, reaches, hstate,
    zombie_parent_iff reaches slot₁ hstate⟩

omit [DecidableEq H] in
/-- The process that `main` creates exits, `wait_lock` is free and nobody can find the
zombie. -/
theorem zombie_without_parent : ∃ memory,
    ∃ m : Config (Instr Unit) Unit (Ctx Unit) (World Unit), ∃ q,
      Reaches ⟨sampleImage, (), false⟩ [sampleEntry, sampleEntry] memory m ∧
      m.world.lock .wait = ⟨none, none⟩ ∧ m.world.kernel.state q = .zombie ∧
      m.world.kernel.parent q = none := by
  obtain ⟨memory, w, k, saved, code, hreach, idles, hzombie, hparent⟩ := leads_orphan false
  refine ⟨memory, lone w code saved, slot₁, hreach, idles.rests.free _, ?_, ?_⟩
  · change (w.kernel.proc slot₁).state = .zombie
    rwa [idles.kernel]
  · change (w.kernel.proc slot₁).parent = none
    rwa [idles.kernel]

end Xv6Kernel.Process
