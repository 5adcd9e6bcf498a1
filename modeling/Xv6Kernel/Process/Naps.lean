import Xv6Kernel.Process.Overflow

/-!
# Processes that sleep

A parent sleeps in `wait_process` while its child lives.  When the other processes are
gone or asleep as well, the scheduler finds nobody to run.
-/

namespace Xv6Kernel.Process

open Xv6Kernel.Foundation Xv6Kernel.Mm

variable {img : Image} {quiet : Bool} {w : World Unit} {k k' : Kernel} {proc : Option Slot}
  {cur : Ctx Unit} {sie : Bool} {p q c : Slot} {lk : Lock} {regs : Context}
  {saved : Ctx Unit → Code Unit Empty}

/-! ## sleep -/

/-- The slot of a process that goes to sleep. -/
def Kernel.napping (p : Slot) (chan : Option Chan) (k : Kernel) : Kernel :=
  k.setProc p fun s => { s with chan, state := .sleeping }

/-- What a process does when it comes back to `sleep` with another lock than its own. -/
def afterNap (p : Slot) (lk : Lock) (next : Unit → Code Unit Empty) : Unit → Code Unit Empty :=
  fun _ => do
    writeProc p fun s => { s with chan := none }
    release (.proc p)
    acquire lk >>= next

variable (img quiet saved) in
theorem leads_sleep (chan : Option Chan) (next : Unit → Code Unit Empty)
    (idles : w.Idles k (some p) (.proc p) sie) (hlk : lk ≠ .proc p)
    (hregs : InSched img p regs) :
    ∃ w', Reachable (platform img quiet)
        (lone (w.taken () lk) (sleep img chan (some lk) >>= next) saved)
        (lone w' (saved (.cpu ()))
          (Function.update saved (.proc p) (afterSched sie (afterNap p lk next)))) ∧
      w'.Guards ((k.napping p chan).switched p regs) (some p) (.cpu ()) p sie := by
  obtain ⟨hback, guards⟩ := idles.traded img quiet hlk k
  have hkernel : ((w.taken () lk).taken () (.proc p)).withKernel k =
      (w.taken () lk).taken () (.proc p) := by
    rw [← idles.kernel]
    rfl
  rw [hkernel] at hback guards
  have off := World.off_taken idles.steady lk
  have hproc : ((w.taken () lk).cpus ()).proc = some p := by
    simpa [World.taken, World.pushed, World.setLock, World.setCpu, World.setSie,
      World.setCsr] using idles.proc
  have hmyproc : Alone (platform img quiet) () (myproc : Code Unit (Option Slot))
      (w.taken () lk) (.ok (some p, w.taken () lk)) := by
    have hrun : Alone (platform img quiet) () (myproc : Code Unit (Option Slot)) _ _ :=
      alone_myproc (.inr off)
    rwa [World.noted_of_off off, hproc] at hrun
  have hfree : (w.taken () lk).lock (.proc p) = ⟨none, none⟩ :=
    (World.lock_taken_other (Ne.symm hlk)).trans (idles.rests.free _)
  obtain ⟨w', hsched, guards'⟩ := leads_sched img quiet saved (afterNap p lk next)
    (guards.withKernel (k.napping p chan)) (by simp [Kernel.napping]) hregs
  refine ⟨w', ?_, guards'⟩
  simp only [sleep, bind_assoc]
  refine (leads_alone hmyproc).trans ?_
  simp only [hlk, ne_eq, not_false_eq_true, if_true, bind_assoc]
  refine (leads_alone (alone_acquire hfree)).trans ((leads_alone hback).trans ?_)
  have hwrite : Alone (platform img quiet) () (writeProc p fun s =>
      { s with chan, state := .sleeping }) _ (.ok ((), _)) := guards.write _
  refine (leads_alone hwrite).trans ?_
  exact hsched

theorem napping_apart (chan : Option Chan) (regs : Context) :
    Apart p k ((k.napping p chan).switched p regs) :=
  (apart_setProc _ rfl ⟨rfl, rfl⟩).trans (apart_setProc _ rfl ⟨rfl, rfl⟩)

theorem napping_sleeps (chan : Option Chan) (regs : Context) :
    (((k.napping p chan).switched p regs).proc p).state = .sleeping ∧
      (((k.napping p chan).switched p regs).proc p).chan = chan := by
  simp [Kernel.napping, Kernel.switched]

/-! ## wait_process with a living child -/

theorem alone_waitScan_living (ps : List Slot) {status havekids : Bool} (off : w.Off ())
    (hfree : ∀ q, w.lock (.proc q) = ⟨none, none⟩)
    (hliving : ∀ q, (w.kernel.proc q).parent = some p → (w.kernel.proc q).state ≠ .zombie) :
    Alone (platform img quiet) () (waitScan img (some p) status ps havekids) w
      (.ok (.inr (havekids || ps.any fun q => (w.kernel.proc q).parent = some p), w)) := by
  induction ps generalizing havekids with
  | nil =>
    rw [List.any_nil, Bool.or_false]
    exact .done ..
  | cons q ps ih =>
    by_cases hchild : (w.kernel.proc q).parent = some p
    · have hback : Alone (platform img quiet) () (release (.proc q)) (w.taken () (.proc q)) _ :=
        alone_giveBack (.inr off) (hfree q) w.kernel
      rw [World.noted_of_off off] at hback
      have hrest := @ih true
      rw [Bool.true_or] at hrest
      rw [List.any_cons, decide_eq_true hchild, Bool.true_or, Bool.or_true]
      refine alone_act_bind (alone_if_pos hchild ((alone_acquire (hfree q)).bind ?_))
      exact alone_act_bind (alone_if_neg (hliving q hchild) (hback.bind hrest))
    · rw [List.any_cons, decide_eq_false hchild, Bool.false_or]
      exact alone_act_bind (alone_if_neg hchild ih)

/-- What a process does when it comes back to the loop of `wait_process`. -/
def afterWait (p : Slot) (status : Bool) (next : CInt × Option CInt → Code Unit Empty) :
    Unit → Code Unit Empty := fun _ => do
  write (setPhase (some p) .scanning)
  let answer ← Program.perform (.waitLoop (some p) status)
  next answer

variable (img quiet saved) in
theorem leads_waits (status : Bool) (next : CInt × Option CInt → Code Unit Empty)
    (idles : w.Idles k (some p) (.proc p) sie)
    (hliving : ∀ q, (k.proc q).parent = some p → (k.proc q).state ≠ .zombie)
    (hchild : (k.proc c).parent = some p) (hkilled : (k.proc p).killed = 0)
    (hregs : InSched img p regs)
    (hk : setPhase (some p) .armed (setPhase (some p) .scanning k) = k') :
    ∃ w', Reachable (platform img quiet) (lone w (waitProcess status >>= next) saved)
        (lone w' (saved (.cpu ())) (Function.update saved (.proc p)
          (afterSched sie (afterNap p .wait (afterWait p status next))))) ∧
      w'.Guards ((k'.napping p (some (.proc p))).switched p regs) (some p) (.cpu ()) p sie := by
  let k₁ := setPhase (some p) .scanning k
  have noted := idles.noted
  have idles₁ := noted.withKernel k₁
  have idles₂ : ((w.noted ()).withKernel k').Idles k' (some p) (.proc p) sie :=
    noted.withKernel k'
  let w₁ := ((w.noted ()).withKernel k₁).taken () .wait
  have off₁ : w₁.Off () := World.off_taken idles₁.steady .wait
  have hfree₁ : ∀ q, w₁.lock (.proc q) = ⟨none, none⟩ := fun q =>
    (World.lock_taken_other (by simp)).trans (idles₁.rests.free _)
  have hphase : Alone (platform img quiet) () (write (setPhase (some p) .scanning))
      ((w.noted ()).taken () .wait) (.ok ((), w₁)) := by
    have hrun : Alone (platform img quiet) () (write (setPhase (some p) .scanning))
        ((w.noted ()).taken () .wait) (.ok ((), ((w.noted ()).taken () .wait).withKernel
          (setPhase (some p) .scanning w.kernel))) := alone_act _
    rwa [idles.kernel] at hrun
  have hscan : Alone (platform img quiet) () (waitScan img (some p) status slots false) w₁ _ :=
    alone_waitScan_living slots off₁ hfree₁ hliving
  have hany : (slots.any fun q => (w₁.kernel.proc q).parent = some p) = true :=
    List.any_eq_true.mpr ⟨c, List.mem_finRange c, decide_eq_true hchild⟩
  rw [hany, Bool.or_true] at hscan
  have hread : Alone (platform img quiet) () (readProc p (·.killed) : Code Unit CInt) w₁
      (.ok (0, w₁)) := by
    have hrun : Alone (platform img quiet) () (readProc p (·.killed) : Code Unit CInt) w₁
        (.ok ((k.proc p).killed, w₁)) := alone_act _
    rwa [hkilled] at hrun
  have harmed : Alone (platform img quiet) () (write (setPhase (some p) .armed)) w₁
      (.ok ((), ((w.noted ()).withKernel k').taken () .wait)) := by
    rw [← hk]
    exact alone_act _
  obtain ⟨w', hsleep, guards⟩ := leads_sleep img quiet saved (some (.proc p))
    (afterWait p status next) idles₂ (nofun : Lock.wait ≠ .proc p) hregs
  refine ⟨w', ?_, guards⟩
  simp only [waitProcess, bind_assoc]
  refine (leads_alone idles.myproc).trans ?_
  refine (leads_alone (alone_acquire (noted.rests.free .wait))).trans ?_
  refine (leads_alone hphase).trans ((leads_call rfl).trans ?_)
  simp only [waitBody, bind_assoc]
  refine (leads_alone hscan).trans ?_
  simp only [if_true, bind_assoc]
  refine (leads_alone alone_deref).trans ((leads_alone hread).trans ?_)
  simp only [ne_eq, not_true_eq_false, decide_false, pure_bind, Bool.not_true, Bool.or_false,
    Bool.false_eq_true, if_false, bind_assoc]
  exact (leads_alone harmed).trans hsleep

variable (img quiet saved) in
theorem leads_clientWaits (status : Bool) (next : Empty → Code Unit Empty)
    (idles : w.Idles k (some p) (.proc p) sie)
    (hliving : ∀ q, (k.proc q).parent = some p → (k.proc q).state ≠ .zombie)
    (hchild : (k.proc c).parent = some p) (hkilled : (k.proc p).killed = 0)
    (hregs : InSched img p regs)
    (hk : setPhase (some p) .armed (setPhase (some p) .scanning k) = k') :
    ∃ w', Reachable (platform img quiet)
        (lone w (Program.perform (.client []) >>= next) saved)
        (lone w' (saved (.cpu ())) (Function.update saved (.proc p)
          (afterSched sie (afterNap p .wait (afterWait p status fun _ =>
            afterAction next ()))))) ∧
      w'.Guards ((k'.napping p (some (.proc p))).switched p regs) (some p) (.cpu ()) p sie := by
  obtain ⟨w', hwaits, guards⟩ := leads_waits img quiet saved status (fun _ => afterAction next ())
    idles hliving hchild hkilled hregs hk
  refine ⟨w', (leads_client (.waitProcess status)).trans ?_, guards⟩
  simp only [takeAction, if_true, bind_assoc]
  exact hwaits

variable (img quiet saved) in
/-- An entry function takes a lock of its own and sleeps on it. -/
theorem leads_clientSleeps (n : Nat) (chan : Option Chan) (next : Empty → Code Unit Empty)
    (idles : w.Idles k (some p) (.proc p) sie) (hregs : InSched img p regs) :
    ∃ w' last, Reachable (platform img quiet)
        (lone w (Program.perform (.client []) >>= next) saved)
        (lone w' (saved (.cpu ())) (Function.update saved (.proc p) last)) ∧
      w'.Guards ((k.napping p chan).switched p regs) (some p) (.cpu ()) p sie := by
  let lk := Lock.user n
  let last : Unit → Code Unit Empty := fun _ => (pure [lk] : Code Unit (List Lock)) >>= fun held =>
    Program.perform (.client held) >>= next
  obtain ⟨w', hsleep, guards⟩ := leads_sleep img quiet saved chan last idles
    (by simp [lk] : lk ≠ .proc p) hregs
  refine ⟨w', afterSched sie (afterNap p lk last), (leads_client (.acquire lk)).trans ?_, guards⟩
  have hnotin : lk ∉ ([] : List Lock) := List.not_mem_nil
  simp only [takeAction, hnotin, if_false, bind_assoc]
  refine (leads_alone (alone_acquire (idles.rests.free lk))).trans ?_
  refine (leads_call rfl).trans ?_
  have hheld : ¬ [lk] = [] := by simp
  simp only [clientBody, hheld, if_false, bind_assoc]
  refine (leads_choose (Action.sleep chan lk)).trans ?_
  simp only [takeAction, if_true, bind_assoc]
  exact hsleep

/-! ## A sleeping parent -/

variable (quiet) in
/-- The second process of `main` sleeps in `wait_process`, and its child has not run. -/
theorem leads_napping : ∃ m w k saved,
    Reachable (platform sampleImage quiet) (boot sampleImage () [sampleEntry, sampleEntry] m)
      (lone w (schedScan (slots.drop 3) true >>= nextPass) saved) ∧
    w.Idles k none (.cpu ()) false ∧ Family .sleeping .runnable 5 k ∧
    (k.proc slot₂).chan = some (.proc slot₂) ∧ (k.shadow slot₂).phase = .armed := by
  obtain ⟨m, w, k, saved, next, hreach, idles, home, hcpu, -⟩ := rounds quiet (le_refl 4)
  obtain ⟨w₁, k₁, hbred, idles₁, family₁, -, -, -⟩ := leads_bred quiet saved next idles home
  have hreach₁ := hreach.trans hbred
  have hkilled : (k₁.proc slot₂).killed = 0 := by
    have good : (logic ⟨sampleImage, (), quiet⟩).Good _ :=
      Reaches.good (S := ⟨sampleImage, (), quiet⟩) hreach₁
    rw [← idles₁.kernel]
    exact (good.inv.data.slot slot₂).killed
  obtain ⟨w₂, hwaits, guards⟩ := leads_clientWaits sampleImage quiet saved false next idles₁
    (fun q hq => by
      by_cases h₃ : q = slot₃
      · rw [h₃, family₁.state₃]
        nofun
      · rw [family₁.orphans q h₃] at hq
        cases hq) family₁.parent hkilled inSched_frameOf.2.2 rfl
  rw [hcpu] at hwaits
  obtain ⟨w₃, hback, idles₃⟩ := leads_back sampleImage quiet _ (slots.drop 3) nextPass guards
  let k₂ := setPhase (some slot₂) .armed (setPhase (some slot₂) .scanning k₁)
  let k₃ := (k₂.napping slot₂ (some (.proc slot₂))).switched slot₂ (frameOf slot₂)
  have waiting : Noted slot₂ k₁ k₂ := (noted_setPhase _).trans (noted_setPhase _)
  have apart : Apart slot₂ k₁ k₃ := waiting.apart.trans (napping_apart _ _)
  obtain ⟨hstate, hchan⟩ : (k₃.proc slot₂).state = .sleeping ∧ (k₃.proc slot₂).chan = _ :=
    napping_sleeps _ _
  have family := family₁.apart apart (by rw [hstate]; nofun) (.inr (.inl rfl))
    (fun heq => absurd heq (by decide))
  rw [hstate, apart.proc slot₃ (by decide), family₁.state₃] at family
  exact ⟨m, w₃, _, _, hreach₁.trans (hwaits.trans hback), idles₃, family, hchan,
    by simp [Kernel.napping, Kernel.switched, setPhase]⟩

/-! ## Nobody to run -/

/-- `initproc` has an adopted child, and the others are gone. -/
structure Deserted (k : Kernel) : Prop where
  state₀ : (k.proc slot₀).state = .runnable
  context₀ : (k.proc slot₀).context = frameOf slot₀
  gone : ∀ q, q ≠ slot₀ → q ≠ slot₃ → (k.proc q).state ≠ .runnable
  parent : ∀ q, (k.proc q).parent = some slot₀ ↔ q = slot₃

theorem Deserted.apart (deserted : Deserted k) (apart : Apart slot₃ k k') : Deserted k' := by
  refine ⟨?_, ?_, fun q h₀ h₃ => ?_, fun q => ?_⟩
  · rw [apart.proc slot₀ (by decide)]
    exact deserted.state₀
  · rw [apart.proc slot₀ (by decide)]
    exact deserted.context₀
  · rw [apart.proc q h₃]
    exact deserted.gone q h₀ h₃
  · by_cases h₃ : q = slot₃
    · rw [h₃, apart.parent]
      exact deserted.parent slot₃
    · rw [apart.proc q h₃]
      exact deserted.parent q

/-- A child gets `initproc` as its parent. -/
theorem bequeath_heir {ps : List Slot} (hc : c ∈ ps) (hchild : (k.proc c).parent = some p)
    (hinit : k.initproc ≠ some p) :
    (k.bequeath p ps).proc c = { k.proc c with parent := k.initproc } := by
  induction ps generalizing k with
  | nil => cases hc
  | cons r ps ih =>
    rw [Kernel.bequeath, List.foldl_cons, ← Kernel.bequeath]
    by_cases heq : r = c
    · subst heq
      rw [if_pos hchild, bequeath_proc ps (by simpa using hinit), Kernel.setProc_proc_self]
    · have hmem : c ∈ ps := (List.mem_cons.mp hc).resolve_left (Ne.symm heq)
      have hkept : ∀ f, (k.setProc r f).proc c = k.proc c := fun f =>
        Kernel.setProc_proc_of_ne _ _ (Ne.symm heq)
      split
      · have hrest := @ih (k.setProc r fun s => { s with parent := k.initproc }) hmem
          (by rwa [hkept]) hinit
        rwa [hkept] at hrest
      · exact ih hmem hchild hinit

theorem Family.deserted {n : Nat} (family : Family .running .runnable n k) (regs : Context) :
    Deserted ((k.orphaned slot₂ 0).switched slot₂ regs) ∧
      ((k.orphaned slot₂ 0).switched slot₂ regs).proc slot₃ =
        { k.proc slot₃ with parent := some slot₀ } := by
  let k₁ := k.recordExit (some slot₂) 0
  obtain ⟨k₂, hk₂⟩ : ∃ k₂, k₁.bequeath slot₂ slots = k₂ := ⟨_, rfl⟩
  let k' := (k₂.setProc slot₂ fun s => { s with xstate := 0, state := .zombie }).switched slot₂ regs
  have hk' : (k.orphaned slot₂ 0).switched slot₂ regs = k' := by rw [Kernel.orphaned, hk₂]
  rw [hk']
  have hinit : k₁.initproc = some slot₀ := family.initproc
  have hkept : ∀ q, q ≠ slot₂ → k'.proc q = k₂.proc q := fun q hq =>
    (Kernel.setProc_proc_of_ne _ _ hq).trans (Kernel.setProc_proc_of_ne _ _ hq)
  have hother : ∀ q, q ≠ slot₂ → q ≠ slot₃ → k'.proc q = k.proc q := by
    intro q h₂ h₃
    rw [hkept q h₂, ← hk₂]
    refine bequeath_proc slots ?_
    change (k.proc q).parent ≠ _
    rw [family.orphans q h₃]
    decide
  have hchild : k'.proc slot₃ = { k.proc slot₃ with parent := some slot₀ } := by
    have hslot : slot₃ ∈ slots := List.mem_finRange slot₃
    have hparent : (k₁.proc slot₃).parent = some slot₂ := family.parent
    rw [hkept slot₃ (by decide), ← hk₂, bequeath_heir hslot hparent (by rw [hinit]; decide), hinit]
    rfl
  have hzombie : (k'.proc slot₂).state = .zombie := by
    simp [k', Kernel.switched]
  have hparent₂ : (k'.proc slot₂).parent = none := by
    have hself : (k'.proc slot₂).parent = (k₂.proc slot₂).parent := by
      simp [k', Kernel.switched]
    have horphan : (k₁.proc slot₂).parent = none := family.orphans slot₂ (by decide)
    rw [hself, ← hk₂, bequeath_proc slots (by rw [horphan]; decide), horphan]
  refine ⟨⟨?_, ?_, fun q h₀ h₃ => ?_, fun q => ?_⟩, hchild⟩
  · rw [hother slot₀ (by decide) (by decide)]
    exact family.state₀
  · rw [hother slot₀ (by decide) (by decide)]
    exact family.context₀
  · rcases slot_cases₃ q with rfl | rfl | rfl | rfl | hq
    · exact absurd rfl h₀
    · rw [hother slot₁ (by decide) (by decide), family.state₁]
      decide
    · rw [hzombie]
      decide
    · exact absurd rfl h₃
    · rw [hother q (drop_ne hq).2.2.1 h₃, family.unused q hq]
      decide
  · by_cases h₃ : q = slot₃
    · subst h₃
      rw [hchild]
      simp
    · by_cases h₂ : q = slot₂
      · rw [h₂, hparent₂]
        decide
      · rw [hother q h₂ h₃, family.orphans q h₃]
        simp [h₃]

theorem Deserted.living (deserted : Deserted k) (h₃ : (k.proc slot₃).state ≠ .zombie) (q : Slot)
    (hq : (k.proc q).parent = some slot₀) : (k.proc q).state ≠ .zombie := by
  rwa [(deserted.parent q).mp hq]

variable (quiet) in
/-- The second process of `main` exits before its child, which then sleeps for good. -/
theorem leads_deserted : ∃ m w k saved,
    Reachable (platform sampleImage quiet) (boot sampleImage () [sampleEntry, sampleEntry] m)
      (lone w (schedScan (slots.drop 4) true >>= nextPass) saved) ∧
    w.Idles k none (.cpu ()) false ∧ Deserted k ∧ (k.proc slot₃).state = .sleeping ∧
    saved (.proc slot₀) = nextTurn := by
  obtain ⟨m, w, k, saved, next, hreach, idles, home, hcpu, hsaved⟩ := rounds quiet (le_refl 4)
  obtain ⟨w₁, k₁, hbred, idles₁, family₁, -, hra, hs0⟩ := leads_bred quiet saved next idles home
  obtain ⟨w₂, hexit, guards₂⟩ := leads_exit sampleImage quiet saved next 0 idles₁
    (by rw [family₁.initproc]; decide)
    (fun q hq => by
      by_cases h₃ : q = slot₃
      · rw [h₃, family₁.state₃]
        nofun
      · rw [family₁.orphans q h₃] at hq
        cases hq) (.inl (family₁.orphans slot₂ (by decide)))
  obtain ⟨w₃, hsched, guards₃⟩ := leads_sched sampleImage quiet saved (afterExit next) guards₂
    (by simp [Kernel.orphaned]) inSched_frameOf.2.2
  rw [hcpu] at hsched
  let saved₄ := Function.update saved (.proc slot₂) (afterSched false (afterExit next))
  obtain ⟨w₄, hback, idles₄⟩ := leads_back sampleImage quiet saved₄ (slots.drop 3) nextPass guards₃
  obtain ⟨deserted, hslot⟩ := family₁.deserted (frameOf slot₂)
  rw [drop_three] at hback
  have hstate₃ : (((k₁.orphaned slot₂ 0).switched slot₂ (frameOf slot₂)).proc slot₃).state =
      .runnable := by rw [hslot]; exact family₁.state₃
  have hra₃ : (((k₁.orphaned slot₂ 0).switched slot₂ (frameOf slot₂)).proc slot₃).context.ra =
      sampleImage.forkret := by rw [hslot]; exact hra
  have hs0₃ : (((k₁.orphaned slot₂ 0).switched slot₂ (frameOf slot₂)).proc slot₃).context.s0 =
      sampleEntry := by rw [hslot]; exact hs0
  obtain ⟨w₅, k₅, hcalled, idles₅, apart₅, -⟩ := leads_called sampleImage quiet saved₄ []
    (slots.drop 4) true nextPass idles₄ (by simp) hstate₃ hra₃ hs0₃ (by decide)
  let saved₅ := Function.update saved₄ (.cpu ()) (afterRun slot₃ (slots.drop 4) nextPass)
  let last : Empty → Code Unit Empty := fun never =>
    (pure never.elim : Code Unit Unit) >>= fun _ => afterEntry
  have hentry : Reachable (platform sampleImage quiet)
      (lone w₅ (Program.perform (.enter sampleEntry) >>= fun _ => afterEntry) saved₅)
      (lone w₅ (Program.perform (.client []) >>= last) saved₅) := leads_sampleEntry
  have hregs : InSched sampleImage slot₃ (frameOf slot₃) := ⟨by decide, by decide⟩
  obtain ⟨w₆, last₆, hsleeps, guards₆⟩ := leads_clientSleeps sampleImage quiet saved₅ 0 none last
    idles₅ hregs
  rw [show saved₅ (.cpu ()) = afterRun slot₃ (slots.drop 4) nextPass from
    Function.update_self ..] at hsleeps
  obtain ⟨w₇, hback₇, idles₇⟩ := leads_back sampleImage quiet
    (Function.update saved₅ (.proc slot₃) last₆) (slots.drop 4) nextPass guards₆
  refine ⟨m, w₇, _, _, hreach.trans (hbred.trans (hexit.trans (hsched.trans (hback.trans
    (hcalled.trans (hentry.trans (hsleeps.trans hback₇))))))), idles₇,
    deserted.apart (apart₅.trans (napping_apart none (frameOf slot₃))),
    (napping_sleeps none (frameOf slot₃)).1, ?_⟩
  have hkept : saved₅ (.proc slot₀) = saved₄ (.proc slot₀) := by simp [saved₅]
  have hkept₄ : saved₄ (.proc slot₀) = saved (.proc slot₀) :=
    Function.update_of_ne (by decide) ..
  exact (Function.update_of_ne (by decide) ..).trans ((hkept.trans hkept₄).trans hsaved)

variable (quiet) in
/-- `initproc` sleeps as well, and the scheduler is left alone. -/
theorem leads_wfi : ∃ m w saved next,
    Reachable (platform sampleImage quiet) (boot sampleImage () [sampleEntry, sampleEntry] m)
      (lone w (.step .wfi next) saved) ∧ (w.kernel.proc slot₀).state = .sleeping ∧
      (w.kernel.proc slot₃).state = .sleeping := by
  obtain ⟨m, w, k, saved, hreach, idles, deserted, hslot₃, hsaved⟩ := leads_deserted quiet
  have hskip : ∀ q ∈ slots.drop 4, (k.proc q).state ≠ .runnable := fun q hq =>
    deserted.gone q (drop_ne hq).1 (drop_ne hq).2.2.2
  obtain ⟨w₁, hresumed, idles₁⟩ := leads_initResumed quiet (slots.drop 4) idles hskip
    deserted.state₀ deserted.context₀ hsaved
  let k₁ := k.setProc slot₀ fun s => { s with state := .running }
  have running : Apart slot₀ k k₁ := running_apart slot₀ k
  have hreach₁ := hreach.trans hresumed
  have hkilled : (w₁.kernel.proc slot₀).killed = 0 := by
    have good : (logic ⟨sampleImage, (), quiet⟩).Good _ :=
      Reaches.good (S := ⟨sampleImage, (), quiet⟩) hreach₁
    exact (good.inv.data.slot slot₀).killed
  rw [idles₁.kernel] at hkilled
  have hparent : ∀ q, (k₁.proc q).parent = (k.proc q).parent := fun q => by
    by_cases hq : q = slot₀
    · rw [hq, running.parent]
    · rw [running.proc q hq]
  have hliving : ∀ q, (k₁.proc q).parent = some slot₀ → (k₁.proc q).state ≠ .zombie := by
    intro q hq
    rw [hparent, deserted.parent] at hq
    rw [hq, running.proc slot₃ (by decide), hslot₃]
    nofun
  have hchild : (k₁.proc slot₃).parent = some slot₀ := by
    rw [hparent]
    exact (deserted.parent slot₃).mpr rfl
  let saved₁ := Function.update saved (.cpu ())
    (afterRun slot₀ (slot₁ :: slot₂ :: slots.drop 3) nextPass)
  obtain ⟨rest, hbody⟩ : ∃ rest, (initLoopBody sampleImage : Code Unit Empty) =
      waitProcess true >>= rest := ⟨_, rfl⟩
  have hloop : Reachable (platform sampleImage quiet)
      (lone w₁ (Program.perform .initLoop >>= afterInit) saved₁)
      (lone w₁ (initLoopBody sampleImage >>= afterInit) saved₁) := leads_call rfl
  rw [hbody, bind_assoc] at hloop
  obtain ⟨w₂, hwaits, guards₂⟩ := leads_waits sampleImage quiet saved₁ true
    (fun answer => rest answer >>= afterInit) idles₁ hliving hchild hkilled inSched_frameOf.1 rfl
  rw [show saved₁ (.cpu ()) = afterRun slot₀ (slot₁ :: slot₂ :: slots.drop 3) nextPass from
    Function.update_self ..] at hwaits
  obtain ⟨w₃, hback, idles₃⟩ := leads_back sampleImage quiet _ (slot₁ :: slot₂ :: slots.drop 3)
    nextPass guards₂
  let k₂ := setPhase (some slot₀) .armed (setPhase (some slot₀) .scanning k₁)
  let k₃ := (k₂.napping slot₀ (some (.proc slot₀))).switched slot₀ (frameOf slot₀)
  have waiting : Noted slot₀ k₁ k₂ := (noted_setPhase _).trans (noted_setPhase _)
  have apart : Apart slot₀ k k₃ := (running.trans waiting.apart).trans (napping_apart _ _)
  obtain ⟨hstate, -⟩ : (k₃.proc slot₀).state = .sleeping ∧ _ := napping_sleeps _ _
  have hnobody : ∀ q, (k₃.proc q).state ≠ .runnable := fun q => by
    by_cases h₀ : q = slot₀
    · rw [h₀, hstate]
      nofun
    · rw [apart.proc q h₀]
      by_cases h₃ : q = slot₃
      · rw [h₃, hslot₃]
        nofun
      · exact deserted.gone q h₀ h₃
  obtain ⟨w₄, hend, idles₄⟩ := leads_skipped sampleImage quiet _ (slot₁ :: slot₂ :: slots.drop 3)
    true nextPass idles₃ fun q _ => hnobody q
  obtain ⟨w₅, hpass, idles₅⟩ := leads_pass sampleImage quiet _ idles₄
  obtain ⟨w₆, hlast, idles₆⟩ := leads_skipped sampleImage quiet _ slots false nextPass idles₅
    fun q _ => hnobody q
  refine ⟨m, w₆, _, _, hreach₁.trans (hloop.trans (hwaits.trans (hback.trans (hend.trans
    (hpass.trans hlast))))), ?_, ?_⟩
  · rw [idles₆.kernel]
    exact hstate
  · rw [idles₆.kernel, apart.proc slot₃ (by decide)]
    exact hslot₃

end Xv6Kernel.Process
