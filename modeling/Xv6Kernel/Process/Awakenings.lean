import Xv6Kernel.Process.Naps
import Xv6Kernel.Process.Wakeups

/-!
# A sleeper is woken

No wakeup is lost in any run of sleepers and wakers.  On one hart a process goes to sleep,
another makes the condition true, and both are followed step by step.
-/

namespace Xv6Kernel.Process.Sleepers

open Xv6Kernel.Foundation Xv6Kernel.Mm

/-! ## The code of the kernel on a hart left alone -/

variable {img : Image} {T : Topic} {α β : Type} {w w' w₁ : World Unit} {b : Bool} {k : Kernel}
  {proc : Option Slot} {cur : Ctx Unit} {sie intena : Bool} {p q : Slot} {lk : Lock}
  {regs : Context} {saved : Ctx Unit → Program (SleepInstr Unit) Empty}

variable (img T) in
/-- The hart executes the program with nothing in between, whatever the condition is. -/
def Does (program : Code Unit α) (w : World Unit) (value : α) (w' : World Unit) : Prop :=
  ∀ b, Alone (platform img T) () (program.translate .code) ⟨w, b⟩ (.ok (value, ⟨w', b⟩))

theorem Does.bind {program : Code Unit α} {rest : α → Code Unit β} {value : α} {value' : β}
    (hprogram : Does img T program w value w₁) (hrest : Does img T (rest value) w₁ value' w') :
    Does img T (program >>= rest) w value' w' := by
  intro b
  rw [Program.translate_bind]
  exact (hprogram b).bind (hrest b)

theorem does_pure (value : α) : Does img T (pure value) w value w := fun _ => .done ..

theorem does_act (f : Unit → World Unit → β × World Unit) :
    Does img T (act f) w (f () w).1 (f () w).2 := fun _ => .atomic rfl (.done ..)

theorem does_acquire (hfree : (w.lock lk).locked = none) :
    Does img T (acquire lk) w () (w.taken () lk) := by
  have htake : Does img T (tryTake lk) w true (w.taken () lk) := by
    intro b
    have hrun : Alone (platform img T) () ((tryTake lk).translate .code) ⟨w, b⟩ (.ok (_, _)) :=
      does_act _ b
    simp only [hfree] at hrun
    exact hrun
  have hbody : Does img T (takeBody lk) w () (w.taken () lk) := htake.bind (does_pure ())
  exact fun b => .call rfl (hbody b) (.done ..)

theorem does_release : Does img T (release lk) w () (w.dropped () lk) := fun _ =>
  .atomic rfl (.done ..)

theorem does_myproc : Does img T myproc w (w.cpus ()).proc (w.noted ()) := fun _ =>
  .atomic rfl (.done ..)

theorem does_readProc (hk : w.kernel = k) (q : Slot) (f : Proc → β) :
    Does img T (readProc q f) w (f (k.proc q)) w := by
  rw [← hk]
  exact does_act _

theorem does_write (hk : w.kernel = k) (f : Kernel → Kernel) :
    Does img T (write f) w () (w.withKernel (f k)) := by
  rw [← hk]
  exact does_act _

theorem Does.leads {program : Code Unit α} {value : α}
    {next : α → Program (SleepInstr Unit) Empty} (hrun : Does img T program w value w') :
    Reachable (platform img T) (lone ⟨w, b⟩ (program.translate .code >>= next) saved)
      (lone ⟨w', b⟩ (next value) saved) :=
  leads_alone (hrun b)

/-- The same with more of the kernel's code behind it. -/
theorem Does.goes {program : Code Unit α} {rest : α → Code Unit β} {value : α}
    {next : β → Program (SleepInstr Unit) Empty} (hrun : Does img T program w value w') :
    Reachable (platform img T) (lone ⟨w, b⟩ ((program >>= rest).translate .code >>= next) saved)
      (lone ⟨w', b⟩ ((rest value).translate .code >>= next) saved) := by
  rw [Program.translate_bind, bind_assoc]
  exact hrun.leads

theorem goes_choose {γ : Type} (answer : γ) {rest : γ → Code Unit β}
    {next : β → Program (SleepInstr Unit) Empty} :
    Reachable (platform img T)
      (lone ⟨w, b⟩ ((choose γ >>= rest : Code Unit β).translate .code >>= next) saved)
      (lone ⟨w, b⟩ ((rest answer).translate .code >>= next) saved) :=
  leads_choice rfl answer

theorem goes_swtch (old new : Ctx Unit) (regs : Context) {rest : Unit → Code Unit β}
    {next : β → Program (SleepInstr Unit) Empty} :
    Reachable (platform img T)
      (lone ⟨w, b⟩ ((Program.perform (.swtch old new regs) >>= rest : Code Unit β).translate
        .code >>= next) saved)
      (lone ⟨transfer old new regs () w, b⟩ (saved new)
        (Function.update saved old ((rest ()).translate .code >>= next))) := by
  have hswitch : (platform img T).effect (.code (.swtch old new regs)) =
      .switch old new (fun h a => a.run (transfer old new regs h a.world)) () := rfl
  exact leads_switch hswitch

/-! ## The scheduler -/

/-- What the scheduler does when it comes back from `p`. -/
def afterTurn (p : Slot) (rest : List Slot) : Code Unit Bool := do
  writeCpu fun c => { c with proc := none }
  release (.proc p)
  schedScan rest true

variable (img T b saved) in
theorem goes_dispatch (rest : List Slot) (found : Bool)
    (next : Bool → Program (SleepInstr Unit) Empty) (idles : w.Idles k none (.cpu ()) sie)
    (hp : (k.proc p).state = .runnable) :
    ∃ w', Reachable (platform img T)
        (lone ⟨w, b⟩ ((schedScan (p :: rest) found).translate .code >>= next) saved)
        (lone ⟨w', b⟩ (saved (.proc p)) (Function.update saved (.cpu ())
          ((afterTurn p rest).translate .code >>= next))) ∧
      w'.Guards (k.setProc p fun s => { s with state := .running }) (some p) (.proc p) p sie := by
  have guards := idles.taken p
  let w₂ : World Unit := { (w.taken () (.proc p)).setCpu () fun c =>
    { c with proc := some p } with
      kernel := (w.taken () (.proc p)).kernel.setProc p fun s => { s with state := .running } }
  refine ⟨transfer (.cpu ()) (.proc p) .zero () w₂, ?_, ?_⟩
  · rw [schedScan]
    refine (does_acquire (by rw [idles.rests.free])).goes.trans ?_
    refine (does_readProc guards.kernel p (·.state)).goes.trans ?_
    rw [if_pos hp]
    refine (does_act _).goes.trans ?_
    simp only [swtchToProc, bind_assoc]
    refine (does_act _).goes.trans ((goes_choose Context.zero).trans ?_)
    exact goes_swtch _ _ _
  · refine ⟨?_, guards.lock, guards.free, ?_, ?_, guards.sie, ?_, ?_⟩
    · rw [← guards.kernel]
      rfl
    · simpa [w₂, transfer, World.setCpu] using guards.noff
    · simpa [w₂, transfer, World.setCpu] using guards.intena
    · simp [w₂, transfer, World.setCpu]
    · simp [w₂, transfer, World.setCpu]

variable (img T b saved) in
theorem goes_back (rest : List Slot) (next : Bool → Program (SleepInstr Unit) Empty)
    (guards : w.Guards k (some p) (.cpu ()) p intena) :
    ∃ w', Reachable (platform img T)
        (lone ⟨w, b⟩ ((afterTurn p rest).translate .code >>= next) saved)
        (lone ⟨w', b⟩ ((schedScan rest true).translate .code >>= next) saved) ∧
      w'.Idles k none (.cpu ()) intena := by
  let w₁ : World Unit := w.setCpu () fun c => { c with proc := none }
  have guards₁ : w₁.Guards k none (.cpu ()) p intena :=
    ⟨guards.kernel, guards.lock, guards.free,
      by simpa [w₁, World.setCpu] using guards.noff,
      by simpa [w₁, World.setCpu] using guards.intena, guards.sie,
      by simp [w₁, World.setCpu], guards.cur⟩
  exact ⟨_, (does_act _).goes.trans does_release.goes, guards₁.dropped⟩

/-! ## sleep and wakeup -/

theorem does_holding (hlock : w.lock lk = ⟨some (), some ()⟩) :
    Does img T (holding lk) w true w := by
  have hread : ∀ f : SpinLock Unit → Option Unit,
      Does img T (readLock lk f) w (f ⟨some (), some ()⟩) w := by
    intro f
    rw [← hlock]
    exact does_act _
  refine (hread (·.locked)).bind ?_
  simp only [Option.isSome_some, if_true]
  exact (does_act _).bind ((hread (·.cpu)).bind (does_pure _))

variable (img T b saved) in
theorem goes_sched (rest : Unit → Code Unit α) (next : α → Program (SleepInstr Unit) Empty)
    (guards : w.Guards k (some p) (.proc p) p intena) (hstate : (k.proc p).state ≠ .running)
    (hregs : InSched img p regs) :
    ∃ w' last, Reachable (platform img T)
        (lone ⟨w, b⟩ ((sched img >>= rest).translate .code >>= next) saved)
        (lone ⟨w', b⟩ (saved (.cpu ())) (Function.update saved (.proc p) last)) ∧
      w'.Guards (k.switched p regs) (some p) (.cpu ()) p intena := by
  have hmyproc : Does img T myproc w (some p) w := by
    have hrun : Does img T myproc w _ _ := does_myproc
    rwa [World.noted_of_off guards.off, guards.proc] at hrun
  have hnoff : Does img T (readCpu (·.noff)) w 1 w := by
    have hrun : Does img T (readCpu (·.noff)) w (w.cpus ()).noff w := does_act _
    rwa [guards.noff] at hrun
  have hintr : Does img T intrGet w false w := by
    have hrun : Does img T intrGet w (w.csr ()).sstatus.sie w := does_act _
    rwa [guards.sie] at hrun
  have guards' : (transfer (.proc p) (.cpu ()) regs () w).Guards (k.switched p regs) (some p)
      (.cpu ()) p intena := by
    refine ⟨?_, guards.lock, guards.free, guards.noff, guards.intena, guards.sie,
      guards.proc, ?_⟩
    · simp only [transfer, guards.kernel]
      rfl
    · simp [transfer]
  refine ⟨_, (do
    writeCpu fun c => { c with intena }
    rest () : Code Unit α).translate .code >>= next, ?_, guards'⟩
  simp only [sched, swtchToCpu, bind_assoc]
  refine hmyproc.goes.trans ((does_pure p).goes.trans ?_)
  refine (does_holding guards.lock).goes.trans ?_
  simp only [Bool.not_true, Bool.false_eq_true, if_false, bind_assoc]
  refine hnoff.goes.trans ?_
  simp only [ne_eq, not_true_eq_false, if_false, bind_assoc]
  refine (does_readProc guards.kernel p (·.state)).goes.trans ?_
  rw [if_neg hstate]
  simp only [bind_assoc]
  refine hintr.goes.trans ?_
  simp only [Bool.false_eq_true, if_false, bind_assoc]
  have hintena : Does img T (readCpu (·.intena)) w intena w := by
    have hrun : Does img T (readCpu (·.intena)) w (w.cpus ()).intena w := does_act _
    rwa [guards.intena] at hrun
  refine hintena.goes.trans ((does_act _).goes.trans ?_)
  refine (goes_choose (⟨regs, hregs⟩ : { regs : Context // InSched img p regs })).trans ?_
  exact goes_swtch _ _ _

variable (img T b saved) in
theorem goes_sleep (chan : Option Chan) (next : Unit → Program (SleepInstr Unit) Empty)
    (idles : w.Idles k (some p) (.proc p) sie) (hlk : lk ≠ .proc p)
    (hregs : InSched img p regs) :
    ∃ w' last, Reachable (platform img T)
        (lone ⟨w.taken () lk, b⟩ ((sleep img chan (some lk)).translate .code >>= next) saved)
        (lone ⟨w', b⟩ (saved (.cpu ())) (Function.update saved (.proc p) last)) ∧
      w'.Guards ((k.napping p chan).switched p regs) (some p) (.cpu ()) p sie := by
  have off := World.off_taken idles.steady lk
  obtain ⟨-, guards⟩ := idles.traded img true hlk k
  have hkernel : ((w.taken () lk).taken () (.proc p)).withKernel k =
      (w.taken () lk).taken () (.proc p) := by
    rw [← idles.kernel]
    rfl
  rw [hkernel] at guards
  have hproc : ((w.taken () lk).cpus ()).proc = some p := by
    simpa [World.taken, World.pushed, World.setLock, World.setCpu, World.setSie,
      World.setCsr] using idles.proc
  have hmyproc : Does img T myproc (w.taken () lk) (some p) (w.taken () lk) := by
    have hrun : Does img T myproc (w.taken () lk) _ _ := does_myproc
    rwa [World.noted_of_off off, hproc] at hrun
  have hfree : ((w.taken () lk).lock (.proc p)).locked = none := by
    rw [World.lock_taken_other (Ne.symm hlk), idles.rests.free]
  let rest : Unit → Code Unit Unit := fun _ => do
    writeProc p fun s => { s with chan := none }
    release (.proc p)
    acquire lk
  obtain ⟨w', last, hsched, guards'⟩ := goes_sched img T b saved rest next
    (guards.withKernel (k.napping p chan)) (by simp [Kernel.napping]) hregs
  refine ⟨w', last, ?_, guards'⟩
  simp only [sleep]
  refine hmyproc.goes.trans ?_
  simp only [hlk, ne_eq, not_false_eq_true, if_true]
  refine (does_acquire hfree).goes.trans (does_release.goes.trans ?_)
  exact (does_write guards.kernel fun k => k.napping p chan).goes.trans hsched

variable (img T) in
/-- `wakeup` under another lock gives every lock back that it takes. -/
theorem does_wakeup (chan : Option Chan) (idles : w.Idles k proc cur sie) (hlk : ∀ q, lk ≠ .proc q) :
    ∃ k', Does img T (wakeup chan) (w.taken () lk) () ((w.withKernel k').taken () lk) := by
  have off : ∀ k₁, ((w.withKernel k₁).taken () lk).Off () := fun k₁ =>
    World.off_taken (idles.withKernel k₁).steady lk
  have hfree : ∀ k₁ q, ((w.withKernel k₁).taken () lk).lock (.proc q) = ⟨none, none⟩ :=
    fun k₁ q => (World.lock_taken_other (Ne.symm (hlk q))).trans (idles.rests.free _)
  have one : ∀ k₁ q, ∃ k₂, Does img T (do
      if some q ≠ (← myproc) then
        acquire (.proc q)
        write (Kernel.wake chan q)
        release (.proc q)) ((w.withKernel k₁).taken () lk) () ((w.withKernel k₂).taken () lk) := by
    intro k₁ q
    have hmyproc : Does img T myproc ((w.withKernel k₁).taken () lk) _ _ := does_myproc
    rw [World.noted_of_off (off k₁)] at hmyproc
    by_cases hself : some q = (((w.withKernel k₁).taken () lk).cpus ()).proc
    · refine ⟨k₁, hmyproc.bind ?_⟩
      rw [if_neg (not_not.mpr hself)]
      exact does_pure _
    · refine ⟨Kernel.wake chan q k₁, hmyproc.bind ?_⟩
      rw [if_pos hself]
      refine (does_acquire (by rw [hfree])).bind ((does_write rfl _).bind ?_)
      have hback : Does img T (release (.proc q)) (((w.withKernel
          (Kernel.wake chan q k₁)).taken () lk).taken () (.proc q)) () _ := does_release
      have hdropped : (((w.withKernel (Kernel.wake chan q k₁)).taken () lk).taken ()
          (.proc q)).dropped () (.proc q) = (w.withKernel (Kernel.wake chan q k₁)).taken () lk := by
        rw [World.dropped_taken (.inr (off _)) (hfree _ q), World.noted_of_off (off _)]
      rw [hdropped] at hback
      exact hback
  have all : ∀ (ps : List Slot) k₁, ∃ k₂, Does img T (Program.forEach ps fun q => do
      if some q ≠ (← myproc) then
        acquire (.proc q)
        write (Kernel.wake chan q)
        release (.proc q)) ((w.withKernel k₁).taken () lk) () ((w.withKernel k₂).taken () lk) := by
    intro ps
    induction ps with
    | nil => exact fun k₁ => ⟨k₁, does_pure ()⟩
    | cons q ps ih =>
      intro k₁
      obtain ⟨k₂, hfirst⟩ := one k₁ q
      obtain ⟨k₃, hrest⟩ := ih k₂
      exact ⟨k₃, hfirst.bind hrest⟩
  obtain ⟨k', hall⟩ := all slots w.kernel
  exact ⟨k', hall⟩

/-! ## Tasks -/

theorem leads_await {next : Empty → Program (SleepInstr Unit) Empty} :
    Reachable (platform img T) (lone ⟨w, b⟩ (.perform .more >>= next) saved)
      (lone ⟨w, b⟩ ((acquire T.lk : Code Unit Unit).translate .code >>= fun _ =>
        .perform .await >>= fun _ => (release T.lk : Code Unit Unit).translate .code >>= fun _ =>
          .perform .more >>= next) saved) := by
  refine (leads_call rfl).trans ?_
  simp only [taskBody, bind_assoc]
  exact leads_choice rfl (Task.await false)

theorem leads_make {next : Empty → Program (SleepInstr Unit) Empty} :
    Reachable (platform img T) (lone ⟨w, b⟩ (.perform .more >>= next) saved)
      (lone ⟨w, b⟩ ((acquire T.lk : Code Unit Unit).translate .code >>= fun _ =>
        .perform (.put true) >>= fun _ => (wakeup T.chan : Code Unit Unit).translate .code >>=
          fun _ => (release T.lk : Code Unit Unit).translate .code >>= fun _ =>
            .perform .more >>= next) saved) := by
  refine (leads_call rfl).trans ?_
  simp only [taskBody, bind_assoc]
  have htask : (platform img T : Platform _ Unit _ _).effect .task = .choose := rfl
  refine (leads_choice htask Task.make).trans ?_
  simp only [bind_assoc]
  exact .refl

variable (img T saved) in
/-- A process finds the condition false and goes to sleep. -/
theorem leads_sleeper (next : Empty → Program (SleepInstr Unit) Empty)
    (idles : w.Idles k (some p) (.proc p) sie) (hregs : InSched img p regs) :
    ∃ w' k' last, Reachable (platform img T)
        (lone ⟨w, false⟩ (.perform .more >>= next) saved)
        (lone ⟨w', false⟩ (saved (.cpu ())) (Function.update saved (.proc p) last)) ∧
      w'.Guards k' (some p) (.cpu ()) p sie ∧ Apart p k k' ∧ (k'.proc p).state = .sleeping ∧
      (k'.proc p).chan = T.chan := by
  let k₁ := k.setShadow p fun s => { s with phase := .armed }
  have idles₁ : (w.withKernel k₁).Idles k₁ (some p) (.proc p) sie := idles.withKernel k₁
  have hlk : T.lk ≠ .proc p := T.apart p
  have hfree : (w.lock T.lk).locked = none := by rw [idles.rests.free]
  let rest : Unit → Program (SleepInstr Unit) Empty := fun _ =>
    (release T.lk : Code Unit Unit).translate .code >>= fun _ => .perform .more >>= next
  let slept : Unit → Program (SleepInstr Unit) Empty := fun _ =>
    .perform .slept >>= fun _ => .perform .await >>= rest
  obtain ⟨w', last, hsleep, guards⟩ := goes_sleep img T false saved T.chan slept idles₁ hlk
    hregs
  have htest : Alone (platform img T) () (.perform .test) ⟨w.taken () T.lk, false⟩
      (.ok (false, ⟨w.taken () T.lk, false⟩)) := .atomic rfl (.done ..)
  have harm : Alone (platform img T) () (.perform .arm) ⟨w.taken () T.lk, false⟩
      (.ok ((), ⟨(w.withKernel k₁).taken () T.lk, false⟩)) := by
    have hrun : Alone (platform img T) () (.perform .arm) ⟨w.taken () T.lk, false⟩
        (.ok ((), ⟨(w.taken () T.lk).running () fun s => { s with phase := .armed }, false⟩)) :=
      .atomic rfl (.done ..)
    have hcur : (w.taken () T.lk).cur () = .proc p := idles.cur
    have hkernel : (w.taken () T.lk).kernel = k := idles.kernel
    rw [World.running, hcur, hkernel] at hrun
    exact hrun
  obtain ⟨hstate, hchan⟩ := napping_sleeps (p := p) (k := k₁) T.chan regs
  refine ⟨w', _, last, leads_await.trans ?_, guards,
    (noted_setShadow _ rfl).apart.trans (napping_apart T.chan regs), hstate, hchan⟩
  refine (does_acquire hfree).leads.trans ((leads_call rfl).trans ?_)
  simp only [awaitBody, bind_assoc]
  refine (leads_alone htest).trans ?_
  simp only [Bool.not_false, if_true, bind_assoc]
  exact (leads_alone harm).trans hsleep

variable (img T b saved) in
/-- A process makes the condition true and wakes the sleepers. -/
theorem leads_maker (next : Empty → Program (SleepInstr Unit) Empty)
    (idles : w.Idles k (some p) (.proc p) sie) :
    ∃ w' k', Reachable (platform img T) (lone ⟨w, b⟩ (.perform .more >>= next) saved)
        (lone ⟨w', true⟩ (.perform .more >>= next) saved) ∧
      w'.Idles k' (some p) (.proc p) sie := by
  have hfree : (w.lock T.lk).locked = none := by rw [idles.rests.free]
  obtain ⟨k', hwakeup⟩ := does_wakeup img T T.chan idles T.apart
  have idles' := idles.withKernel k'
  have hput : Alone (platform img T) () (.perform (.put true)) ⟨w.taken () T.lk, b⟩
      (.ok ((), ⟨w.taken () T.lk, true⟩)) := .atomic rfl (.done ..)
  have hdropped : ((w.withKernel k').taken () T.lk).dropped () T.lk = (w.withKernel k').noted () :=
    World.dropped_taken idles'.steady (idles'.rests.free _)
  have hback : Does img T (release T.lk) ((w.withKernel k').taken () T.lk) () _ := does_release
  rw [hdropped] at hback
  refine ⟨_, k', leads_make.trans ?_, idles'.noted⟩
  refine (does_acquire hfree).leads.trans ((leads_alone hput).trans ?_)
  exact hwakeup.leads.trans hback.leads

/-! ## A sleeper and a waker -/

/-- The lock and the channel of the ticks. -/
def ticksTopic : Topic := ⟨some .ticks, .ticks, by simp⟩

/-- One hart, and a process in every slot. -/
def sampleStart : Config (SleepInstr Unit) Unit (Ctx Unit) (Sleepers Unit) :=
  start (fun _ => true) ⟨fun _ => 0, 0, 0⟩ false

variable (img T b saved) in
theorem leads_first (w : World Unit) (k : Kernel) (idles : w.Idles k none (.cpu ()) sie) :
    ∃ w' next, Reachable (platform img T) (lone ⟨w, b⟩ (scheduler.translate .code) saved)
        (lone ⟨w', b⟩ ((schedScan slots false).translate .code >>= next) saved) ∧
      w'.Idles k none (.cpu ()) false := by
  let w₁ : World Unit := w.setCpu () fun c => { c with proc := none }
  have idles₁ : w₁.Idles k none (.cpu ()) sie :=
    ⟨idles.kernel, ⟨by simpa [w₁, World.setCpu] using idles.rests.noff, idles.rests.free⟩,
      by simp [w₁, World.setCpu], idles.cur, idles.sie⟩
  have idles₂ := (idles₁.setSie true).setSie false
  have hcall : Reachable (platform img T)
      (lone ⟨w₁, b⟩ (.perform (.code .scheduling) >>= Program.done) saved)
      (lone ⟨w₁, b⟩ ((schedulingBody : Code Unit Empty).translate .code >>= Program.done) saved) :=
    leads_call rfl
  have hclear : Reachable (platform img T) (lone ⟨w, b⟩ (scheduler.translate .code) saved)
      (lone ⟨w₁, b⟩ (.perform (.code .scheduling) >>= Program.done) saved) :=
    (does_act _).leads
  have hscan : Reachable (platform img T)
      (lone ⟨w₁, b⟩ ((schedulingBody : Code Unit Empty).translate .code >>= Program.done) saved)
      (lone ⟨(w₁.setSie () true).setSie () false, b⟩ ((schedScan slots false >>=
        fun found => do
          if !found then
            .perform .wfi
          .perform .scheduling : Code Unit Empty).translate .code >>= Program.done) saved) :=
    (does_act _).goes.trans (does_act _).goes
  rw [Program.translate_bind, bind_assoc] at hscan
  exact ⟨_, _, hclear.trans (hcall.trans hscan), idles₂⟩

/-- The first process sleeps, and later on the second one has called `wakeup`. -/
theorem leads_woken : ∃ m₁ m₂, Reachable (platform sampleImage ticksTopic) sampleStart m₁ ∧
    Reachable (platform sampleImage ticksTopic) m₁ m₂ ∧
    ((m₁.world.world.kernel.proc slot₀).state = .sleeping ∧
      (m₁.world.world.kernel.proc slot₀).chan = some .ticks) ∧
    (m₂.world.world.lock .ticks).locked = none ∧ m₂.world.cond = true := by
  obtain ⟨w₀, k₀, saved₀, hstart, idles₀, hstate, hsaved⟩ : ∃ w₀ k₀ saved₀,
      sampleStart = lone ⟨w₀, false⟩ (scheduler.translate .code) saved₀ ∧
      w₀.Idles k₀ none (.cpu ()) true ∧ (∀ p, (k₀.proc p).state = .runnable) ∧
      ∀ p, saved₀ (.proc p) = ((release (.proc p) : Code Unit Unit).translate .code >>= fun _ =>
        .perform .more) :=
    ⟨_, _, _, rfl, ⟨rfl, ⟨rfl, fun _ => rfl⟩, rfl, rfl, rfl⟩, fun _ => rfl, fun _ => rfl⟩
  rw [hstart]
  obtain ⟨w₁, next, hfirst, idles₁⟩ := leads_first sampleImage ticksTopic false saved₀ w₀ k₀
    idles₀
  rw [slots_eq] at hfirst
  obtain ⟨w₂, hdispatch₂, guards₂⟩ := goes_dispatch sampleImage ticksTopic false saved₀
    (p := slot₀) (slot₁ :: slot₂ :: slots.drop 3) false next idles₁ (hstate slot₀)
  rw [hsaved] at hdispatch₂
  let k₂ := k₀.setProc slot₀ fun s => { s with state := .running }
  let saved₂ := Function.update saved₀ (.cpu ()) ((afterTurn slot₀
    (slot₁ :: slot₂ :: slots.drop 3)).translate .code >>= next)
  have idles₂ : (w₂.dropped () (.proc slot₀)).Idles k₂ (some slot₀) (.proc slot₀) false :=
    guards₂.dropped
  obtain ⟨w₃, k₃, last, hsleeper, guards₃, apart, hsleeping, hchan⟩ := leads_sleeper sampleImage
    ticksTopic saved₂ Program.done idles₂ inSched_frameOf.1
  rw [show saved₂ (.cpu ()) = (afterTurn slot₀ (slot₁ :: slot₂ :: slots.drop 3)).translate .code >>=
    next from Function.update_self ..] at hsleeper
  let saved₃ := Function.update saved₂ (.proc slot₀) last
  obtain ⟨w₄, hback, idles₄⟩ := goes_back sampleImage ticksTopic false saved₃
    (slot₁ :: slot₂ :: slots.drop 3) next guards₃
  have hstate₁ : (k₃.proc slot₁).state = .runnable := by
    rw [apart.proc slot₁ (by decide), Kernel.setProc_proc_of_ne _ _ (by decide)]
    exact hstate slot₁
  obtain ⟨w₅, hdispatch₅, guards₅⟩ := goes_dispatch sampleImage ticksTopic false saved₃
    (p := slot₁) (slot₂ :: slots.drop 3) true next idles₄ hstate₁
  have hsaved₃ : saved₃ (.proc slot₁) = ((release (.proc slot₁) : Code Unit Unit).translate .code
      >>= fun _ => .perform .more) := by
    rw [← hsaved slot₁]
    exact (Function.update_of_ne (by decide) ..).trans (Function.update_of_ne (by simp) ..)
  rw [hsaved₃] at hdispatch₅
  obtain ⟨w₆, k₆, hmaker, idles₆⟩ := leads_maker sampleImage ticksTopic false
    (Function.update saved₃ (.cpu ()) ((afterTurn slot₁ (slot₂ :: slots.drop 3)).translate .code >>=
      next)) Program.done guards₅.dropped
  rw [Program.bind_pure'] at hsleeper
  refine ⟨_, _, hfirst.trans (hdispatch₂.trans (does_release.leads.trans
    (hsleeper.trans hback))), hdispatch₅.trans (does_release.leads.trans hmaker), ?_, ?_, rfl⟩
  · rw [← idles₄.kernel] at hsleeping hchan
    exact ⟨hsleeping, hchan⟩
  · change (w₆.lock .ticks).locked = none
    rw [idles₆.rests.free]

/-! ## All runs -/

section Runs

variable {H : Type} [DecidableEq H] {img : Image} {T : Topic} {live : Slot → Bool}
  {memory : Memory} {cond : Bool}

/-- Whenever the lock is free and the condition true nobody sleeps on the channel, and
`sleep` returns with the lock held by the caller and its `chan` cleared. -/
theorem no_wakeup_lost {m : Config (SleepInstr H) H (Ctx H) (Sleepers H)}
    (hrun : Reachable (platform img T) (start live memory cond) m) :
    ((m.world.world.lock T.lk).locked = none → m.world.cond = true → ∀ p,
      ¬ ((m.world.world.kernel.proc p).state = .sleeping ∧
        (m.world.world.kernel.proc p).chan = T.chan)) ∧
    ∀ h next, m.code h = .step .slept next → ∃ p, m.world.world.cur h = .proc p ∧
      (m.world.world.lock T.lk).locked = some h ∧
      (m.world.world.kernel.proc p).chan = none := by
  have good := start_good.reachable verified hrun
  refine ⟨fun hfree hcond p hsleep => ?_, fun h next hcode => ?_⟩
  · have hfalse := good.inv.cond hfree p (good.inv.armed hsleep)
    cases hcond.symm.trans hfalse
  · obtain ⟨p, awake, holds, hchan⟩ := good.called hcode rfl
    exact ⟨p, awake.cur, holds.held, hchan⟩

end Runs

/-- The process that has gone to sleep is awake when the lock is free again. -/
theorem no_wakeup_lost_sample : ∃ m₁ m₂,
    Reachable (platform sampleImage ticksTopic) sampleStart m₁ ∧
    Reachable (platform sampleImage ticksTopic) m₁ m₂ ∧
    ((m₁.world.world.kernel.proc slot₀).state = .sleeping ∧
      (m₁.world.world.kernel.proc slot₀).chan = some .ticks) ∧
    (m₂.world.world.lock .ticks).locked = none ∧ m₂.world.cond = true ∧
    ∀ p, ¬ ((m₂.world.world.kernel.proc p).state = .sleeping ∧
      (m₂.world.world.kernel.proc p).chan = some .ticks) := by
  obtain ⟨m₁, m₂, hbefore, hafter, hsleeping, hfree, hcond⟩ := leads_woken
  have hrun : Reachable (platform sampleImage ticksTopic)
      (start (fun _ => true) ⟨fun _ => 0, 0, 0⟩ false) m₂ := hbefore.trans hafter
  exact ⟨m₁, m₂, hbefore, hafter, hsleeping, hfree, hcond, (no_wakeup_lost hrun).1 hfree hcond⟩

end Xv6Kernel.Process.Sleepers
