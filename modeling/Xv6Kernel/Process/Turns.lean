import Xv6Kernel.Process.Booting

/-!
# Turns

One after the other processes run until they yield or exit, and the scheduler goes on
behind them.
-/

namespace Xv6Kernel.Process

open Xv6Kernel.Foundation Xv6Kernel.Mm

variable {img : Image} {quiet : Bool} {w : World Unit} {k k' k'' : Kernel}
  {proc : Option Slot} {cur : Ctx Unit} {sie intena : Bool} {p q : Slot} {α β : Type}
  {saved : Ctx Unit → Code Unit Empty} {regs : Context}

/-- Nothing but the history of `p` and the output has changed. -/
structure Noted (p : Slot) (k k' : Kernel) : Prop where
  proc : k'.proc = k.proc
  initproc : k'.initproc = k.initproc
  entry : (k'.shadow p).entry = (k.shadow p).entry
  shadow : ∀ q, q ≠ p → k'.shadow q = k.shadow q
  memory : k'.memory = k.memory
  pids : PidsKept k k'

theorem Noted.refl : Noted p k k := ⟨rfl, rfl, rfl, fun _ _ => rfl, rfl, ⟨rfl, rfl⟩⟩

theorem Noted.trans (h : Noted p k k') (h' : Noted p k' k'') : Noted p k k'' :=
  ⟨h'.proc.trans h.proc, h'.initproc.trans h.initproc, h'.entry.trans h.entry,
    fun q hq => (h'.shadow q hq).trans (h.shadow q hq), h'.memory.trans h.memory,
    h.pids.trans h'.pids⟩

theorem noted_print (text : String) : Noted p k (k.print text) :=
  ⟨print_proc k text, print_initproc k text, by rw [print_shadow],
    fun q _ => by rw [print_shadow], print_memory k text, print_nextpid k text,
    print_born k text⟩

theorem noted_setShadow (g : Shadow → Shadow)
    (hentry : (g (k.shadow p)).entry = (k.shadow p).entry) : Noted p k (k.setShadow p g) :=
  ⟨rfl, rfl, by rw [Kernel.setShadow_shadow_self, hentry],
    fun _ hq => Kernel.setShadow_shadow_of_ne k g hq, rfl, ⟨rfl, rfl⟩⟩

theorem noted_announced : Noted p k k.announced := by
  rw [Kernel.announced]
  split
  · have hfirst : Noted p k { k with first := false } :=
      ⟨rfl, rfl, rfl, fun _ _ => rfl, rfl, ⟨rfl, rfl⟩⟩
    exact hfirst.trans (noted_print _)
  · exact .refl

theorem noted_setPhase (phase : Phase) : Noted p k (setPhase (some p) phase k) :=
  noted_setShadow (fun s => { s with phase }) rfl

/-! ## sched -/

theorem World.Guards.holding (guards : w.Guards k proc cur p intena) :
    Alone (platform img quiet) () (holding (.proc p) : Code Unit Bool) w (.ok (true, w)) := by
  have hrun : Alone (platform img quiet) () (Process.holding (.proc p) : Code Unit Bool) w _ :=
    alone_holding (.proc p)
  rw [guards.lock] at hrun
  simpa using hrun

theorem World.Guards.readCpu (guards : w.Guards k proc cur p intena) :
    Alone (platform img quiet) () (readCpu (·.noff) : Code Unit Int) w (.ok (1, w)) ∧
      Alone (platform img quiet) () (readCpu (·.intena) : Code Unit Bool) w
        (.ok (intena, w)) := by
  have hnoff : Alone (platform img quiet) () (Process.readCpu (·.noff) : Code Unit Int) w
      (.ok ((w.cpus ()).noff, w)) := alone_act _
  have hintena : Alone (platform img quiet) () (Process.readCpu (·.intena) : Code Unit Bool) w
      (.ok ((w.cpus ()).intena, w)) := alone_act _
  rw [guards.noff] at hnoff
  rw [guards.intena] at hintena
  exact ⟨hnoff, hintena⟩

theorem World.Guards.intrGet (guards : w.Guards k proc cur p intena) :
    Alone (platform img quiet) () (intrGet : Code Unit Bool) w (.ok (false, w)) := by
  have hrun : Alone (platform img quiet) () (Process.intrGet : Code Unit Bool) w
      (.ok ((w.csr ()).sstatus.sie, w)) := alone_act _
  rwa [guards.sie] at hrun

/-- The process after it has been switched out with the registers `regs`. -/
def Kernel.switched (p : Slot) (regs : Context) (k : Kernel) : Kernel :=
  k.setProc p fun s => { s with context := regs }

/-- What a process does when it comes back to `sched`. -/
def afterSched (intena : Bool) (next : Unit → Code Unit Empty) : Code Unit Empty := do
  writeCpu fun c => { c with intena }
  next ()

variable (img quiet saved) in
/-- `sched` comes to its call of `swtch`. -/
theorem leads_switching (next : Unit → Code Unit Empty)
    (guards : w.Guards k (some p) (.proc p) p intena) (hstate : (k.proc p).state ≠ .running)
    (hregs : InSched img p regs) :
    Reachable (platform img quiet) (lone w (sched img >>= next) saved)
      (lone w (Program.perform (.swtch (.proc p) (.cpu ()) regs) >>= fun _ =>
        afterSched intena next) saved) := by
  simp only [sched, swtchToCpu, bind_assoc]
  refine (leads_alone guards.myproc).trans ?_
  refine (leads_alone alone_deref).trans ?_
  refine (leads_alone guards.holding).trans ?_
  simp only [Bool.not_true, Bool.false_eq_true, if_false, bind_assoc]
  refine (leads_alone guards.readCpu.1).trans ?_
  simp only [ne_eq, not_true_eq_false, if_false, bind_assoc]
  refine (leads_alone (guards.readProc p (·.state))).trans ?_
  rw [if_neg hstate]
  simp only [bind_assoc]
  refine (leads_alone guards.intrGet).trans ?_
  simp only [Bool.false_eq_true, if_false, bind_assoc]
  refine (leads_alone guards.readCpu.2).trans ?_
  exact (leads_alone alone_mycpu).trans
    (leads_choose (⟨regs, hregs⟩ : { regs : Context // InSched img p regs }))

variable (img quiet saved) in
theorem leads_sched (next : Unit → Code Unit Empty)
    (guards : w.Guards k (some p) (.proc p) p intena) (hstate : (k.proc p).state ≠ .running)
    (hregs : InSched img p regs) :
    ∃ w', Reachable (platform img quiet) (lone w (sched img >>= next) saved)
        (lone w' (saved (.cpu ())) (Function.update saved (.proc p) (afterSched intena next))) ∧
      w'.Guards (k.switched p regs) (some p) (.cpu ()) p intena := by
  refine ⟨transfer (.proc p) (.cpu ()) regs () w,
    (leads_switching img quiet saved next guards hstate hregs).trans (leads_swtch _ _ _), ?_⟩
  · refine ⟨?_, guards.lock, guards.free, guards.noff, guards.intena, guards.sie,
      guards.proc, ?_⟩
    · simp only [transfer, guards.kernel]
      rfl
    · simp [transfer]

variable (img quiet saved) in
/-- The scheduler gives the lock back and looks further. -/
theorem leads_back (rest : List Slot) (next : Bool → Code Unit Empty)
    (guards : w.Guards k (some p) (.cpu ()) p intena) :
    ∃ w', Reachable (platform img quiet) (lone w (afterRun p rest next) saved)
        (lone w' (schedScan rest true >>= next) saved) ∧
      w'.Idles k none (.cpu ()) intena := by
  let w₁ : World Unit := w.setCpu () fun c => { c with proc := none }
  have guards₁ : w₁.Guards k none (.cpu ()) p intena :=
    ⟨guards.kernel, guards.lock, guards.free,
      by simpa [w₁, World.setCpu] using guards.noff,
      by simpa [w₁, World.setCpu] using guards.intena, guards.sie,
      by simp [w₁, World.setCpu], guards.cur⟩
  have hclear : Alone (platform img quiet) () (writeCpu fun c => { c with proc := none } :
      Code Unit Unit) w (.ok ((), w₁)) := alone_act _
  exact ⟨_, (leads_alone hclear).trans (leads_alone guards₁.release), guards₁.dropped⟩

theorem World.Idles.myproc (idles : w.Idles k proc cur sie) :
    Alone (platform img quiet) () (myproc : Code Unit (Option Slot)) w
      (.ok (proc, w.noted ())) := by
  have hrun : Alone (platform img quiet) () (Process.myproc : Code Unit (Option Slot)) w
      (.ok ((w.cpus ()).proc, w.noted ())) := alone_myproc idles.steady
  rwa [idles.proc] at hrun

/-- What a process does when it comes back to `yield`. -/
def afterYield (p : Slot) (next : Unit → Code Unit Empty) : Unit → Code Unit Empty :=
  fun _ => release (.proc p) >>= next

variable (img quiet) in
/-- `yield` comes to its call of `sched`. -/
theorem leads_yielding (next : Unit → Code Unit Empty)
    (idles : w.Idles k (some p) (.proc p) sie) :
    ∃ w', Reachable (platform img quiet) (lone w (yield img >>= next) saved)
        (lone w' (sched img >>= afterYield p next) saved) ∧
      w'.Guards (k.setProc p fun s => { s with state := .runnable }) (some p) (.proc p) p
        sie := by
  have guards := idles.noted.taken p
  refine ⟨_, ?_, guards.withKernel (k.setProc p fun s => { s with state := .runnable })⟩
  simp only [yield, bind_assoc]
  refine (leads_alone idles.myproc).trans ?_
  refine (leads_alone alone_deref).trans ?_
  refine (leads_alone (alone_acquire (idles.noted.rests.free _))).trans ?_
  have hwrite : Alone (platform img quiet) () (writeProc p fun s =>
      { s with state := .runnable }) ((w.noted ()).taken () (.proc p)) (.ok ((), _)) :=
    guards.write _
  exact leads_alone hwrite

variable (img quiet saved) in
theorem leads_yield (next : Unit → Code Unit Empty) (idles : w.Idles k (some p) (.proc p) sie)
    (hregs : InSched img p regs) :
    ∃ w', Reachable (platform img quiet) (lone w (yield img >>= next) saved)
        (lone w' (saved (.cpu ()))
          (Function.update saved (.proc p) (afterSched sie (afterYield p next)))) ∧
      w'.Guards ((k.setProc p fun s => { s with state := .runnable }).switched p regs)
        (some p) (.cpu ()) p sie := by
  obtain ⟨w₁, hyielding, guards₁⟩ := leads_yielding img quiet next idles
  obtain ⟨w', hsched, guards₂⟩ := leads_sched img quiet saved
    (afterYield p next) guards₁ (by simp) hregs
  exact ⟨w', hyielding.trans hsched, guards₂⟩

/-! ## wait_process without children -/

theorem alone_waitScan {ps : List Slot} {status havekids : Bool}
    (hnone : ∀ q ∈ ps, (w.kernel.proc q).parent ≠ some p) :
    Alone (platform img quiet) () (waitScan img (some p) status ps havekids) w
      (.ok (.inr havekids, w)) := by
  induction ps with
  | nil => exact .done ..
  | cons q ps ih =>
    refine alone_act_bind (alone_if_neg (hnone q List.mem_cons_self) ?_)
    exact ih fun r hr => hnone r (List.mem_cons_of_mem _ hr)

variable (img quiet) in
theorem alone_waitProcess (status : Bool) (idles : w.Idles k (some p) cur sie)
    (hnone : ∀ q, (k.proc q).parent ≠ some p) :
    ∃ w' k', Alone (platform img quiet) () (waitProcess status) w (.ok ((-1, none), w')) ∧
      w'.Idles k' (some p) cur sie ∧ Noted p k k' := by
  let k₁ := setPhase (some p) .scanning k
  let k₂ := setPhase (some p) .out (k₁.record (.childless (k₁.shadow p).serial (k₁.children p)))
  have noted := idles.noted
  have hfree := noted.rests.free .wait
  let w₁ := ((w.noted ()).taken () .wait).withKernel k₁
  have hphase : Alone (platform img quiet) () (write (setPhase (some p) .scanning))
      ((w.noted ()).taken () .wait) (.ok ((), w₁)) := by
    have hrun : Alone (platform img quiet) () (write (setPhase (some p) .scanning))
        ((w.noted ()).taken () .wait) (.ok ((), ((w.noted ()).taken () .wait).withKernel
          (setPhase (some p) .scanning w.kernel))) := alone_act _
    rwa [idles.kernel] at hrun
  have hscan : Alone (platform img quiet) () (waitScan img (some p) status slots false) w₁
      (.ok (.inr false, w₁)) := alone_waitScan fun q _ => hnone q
  have hlast : Alone (platform img quiet) () (release .wait) (w₁.withKernel k₂) (.ok ((), _)) :=
    alone_giveBack noted.steady hfree k₂
  have hbody : Alone (platform img quiet) () (waitBody img (some p) status) w₁
      (.ok ((-1, none), ((w.noted ()).noted ()).withKernel k₂)) := by
    refine hscan.bind ?_
    exact alone_act_bind (hlast.bind (.done ..))
  refine ⟨_, k₂, ?_, noted.noted.withKernel k₂, ?_⟩
  · refine idles.myproc.bind ((alone_acquire hfree).bind (hphase.bind ?_))
    exact .perform_call rfl hbody
  · have hrecord : Noted p k₁ (k₁.record (.childless (k₁.shadow p).serial (k₁.children p))) :=
      ⟨rfl, rfl, rfl, fun _ _ => rfl, rfl, ⟨rfl, rfl⟩⟩
    exact (noted_setPhase _).trans (hrecord.trans (noted_setPhase _))

/-! ## init_task -/

theorem alone_atEntry :
    Alone (platform img quiet) () (Program.perform .atEntry : Code Unit Unit) w
      (.ok ((), w)) :=
  .perform_call rfl (.done ..)

/-- What `init_task` does after it has yielded. -/
def afterInitYield (next : Empty → Code Unit Empty) : Unit → Code Unit Empty := fun _ => do
  Program.perform .atEntry
  let never ← Program.perform .initLoop
  next never

variable (img quiet saved) in
theorem leads_initLoop (next : Empty → Code Unit Empty)
    (idles : w.Idles k (some p) (.proc p) sie) (hnone : ∀ q, (k.proc q).parent ≠ some p)
    (hregs : InSched img p regs) :
    ∃ w' k', Reachable (platform img quiet) (lone w (Program.perform .initLoop >>= next) saved)
        (lone w' (saved (.cpu ()))
          (Function.update saved (.proc p)
            (afterSched sie (afterYield p (afterInitYield next))))) ∧
      w'.Guards ((k'.setProc p fun s => { s with state := .runnable }).switched p regs)
        (some p) (.cpu ()) p sie ∧ Noted p k k' := by
  obtain ⟨w₁, k', hwait, idles₁, noted⟩ := alone_waitProcess img quiet true idles
    hnone
  obtain ⟨w₂, hyield, guards⟩ := leads_yield img quiet saved (afterInitYield next)
    idles₁ hregs
  refine ⟨w₂, k', ?_, guards, noted⟩
  refine (leads_call rfl).trans ?_
  simp only [initLoopBody, bind_assoc]
  refine (leads_alone hwait).trans ((leads_alone alone_atEntry).trans ?_)
  have hneg : ¬ (0 : Int) ≤ (-1 : CInt).toInt := by decide
  simp only [hneg, if_false, bind_assoc]
  exact hyield

variable (img quiet saved) in
theorem leads_initTask (next : Empty → Code Unit Empty)
    (idles : w.Idles k (some p) (.proc p) sie) :
    ∃ w' k', Reachable (platform img quiet) (lone w (initTask >>= next) saved)
        (lone w' (Program.perform .initLoop >>= next) saved) ∧
      w'.Idles k' (some p) (.proc p) sie ∧ Noted p k k' := by
  obtain ⟨w', hprint, idles'⟩ := alone_printf_idle img quiet idles
    "init: starting\n"
  refine ⟨w', _, ?_, idles', noted_print _⟩
  simp only [initTask, bind_assoc]
  exact (leads_alone alone_atEntry).trans ((leads_alone hprint).trans
    (leads_alone alone_atEntry))

/-! ## Entry functions -/

/-- An entry function without locks takes an action. -/
theorem leads_client {next : Empty → Code Unit Empty} (action : Action) :
    Reachable (platform img quiet) (lone w (Program.perform (.client []) >>= next) saved)
      (lone w (takeAction img [] action >>= fun held' =>
        Program.perform (.client held') >>= next) saved) := by
  refine (leads_call rfl).trans ?_
  simp only [clientBody, if_true, bind_assoc]
  exact (leads_alone alone_atEntry).trans (leads_choose action)

variable (img quiet saved) in
theorem leads_intrOn (next : Empty → Code Unit Empty)
    (idles : w.Idles k (some p) (.proc p) sie) :
    ∃ w', Reachable (platform img quiet)
        (lone w (Program.perform (.client []) >>= next) saved)
        (lone w' (Program.perform (.client []) >>= next) saved) ∧
      w'.Idles (k.setShadow p fun s => { s with calledOn := true }) (some p) (.proc p) true := by
  have idles' := (idles.setSie true).withKernel (k.setShadow p fun s =>
    { s with calledOn := true })
  refine ⟨_, (leads_client .intrOn).trans ?_, idles'⟩
  have hrun : Alone (platform img quiet) () userIntrOn w (.ok ((),
      (w.setSie () true).withKernel (k.setShadow p fun s => { s with calledOn := true }))) := by
    refine alone_act_eq ?_
    have hcur : (w.setSie () true).cur () = .proc p := idles.cur
    have hkernel : (w.setSie () true).kernel = k := idles.kernel
    rw [World.running, hcur, hkernel]
    rfl
  have hact : Alone (platform img quiet) () (takeAction img [] .intrOn) w (.ok ([],
      (w.setSie () true).withKernel (k.setShadow p fun s => { s with calledOn := true }))) := by
    rw [takeAction, if_pos rfl]
    exact hrun.bind (.done ..)
  exact leads_alone hact

/-! ## exit_process -/

/-- `wakeup` under a lock does nothing when nobody sleeps. -/
theorem alone_wakeup_awake (chan : Option Chan) (off : w.Off ())
    (hfree : ∀ q, w.lock (.proc q) = ⟨none, none⟩)
    (hawake : ∀ q, (w.kernel.proc q).state ≠ .sleeping) :
    Alone (platform img quiet) () (wakeup chan) w (.ok ((), w)) := by
  have one : ∀ q, Alone (platform img quiet) () (do
      if some q ≠ (← myproc) then
        acquire (.proc q)
        write (Kernel.wake chan q)
        release (.proc q)) w (.ok ((), w)) := by
    intro q
    have hmyproc : Alone (platform img quiet) () (myproc : Code Unit (Option Slot)) w _ :=
      alone_myproc (.inr off)
    rw [World.noted_of_off off] at hmyproc
    refine hmyproc.bind ?_
    by_cases hself : some q = (w.cpus ()).proc
    · exact alone_if_neg (not_not.mpr hself) (.done ..)
    · refine alone_if_pos hself ((alone_acquire (hfree q)).bind ?_)
      have hwake : Kernel.wake chan q w.kernel = w.kernel := if_neg fun both => hawake q both.1
      have hwrite : Alone (platform img quiet) () (write (Kernel.wake chan q))
          (w.taken () (.proc q)) (.ok ((), (w.taken () (.proc q)).withKernel
            (Kernel.wake chan q w.kernel))) := alone_act _
      have hback : Alone (platform img quiet) () (release (.proc q)) _ _ :=
        alone_giveBack (.inr off) (hfree q) (Kernel.wake chan q w.kernel)
      rw [World.noted_of_off off, hwake] at hback
      rw [hwake] at hwrite
      exact hwrite.bind hback
  have all : ∀ ps : List Slot, Alone (platform img quiet) () (Program.forEach ps fun q => do
      if some q ≠ (← myproc) then
        acquire (.proc q)
        write (Kernel.wake chan q)
        release (.proc q)) w (.ok ((), w)) := by
    intro ps
    induction ps with
    | nil => exact .done ..
    | cons q ps ih => exact (one q).bind ih
  exact all slots

/-- What `reparent` makes of the slots `ps`. -/
def Kernel.bequeath (p : Slot) (k : Kernel) (ps : List Slot) : Kernel :=
  ps.foldl (fun k q =>
    if (k.proc q).parent = some p then k.setProc q fun s => { s with parent := k.initproc }
    else k) k

theorem bequeath_state (k : Kernel) (ps : List Slot) (q : Slot) :
    ((k.bequeath p ps).proc q).state = (k.proc q).state := by
  induction ps generalizing k with
  | nil => rfl
  | cons r ps ih =>
    rw [Kernel.bequeath, List.foldl_cons, ← Kernel.bequeath, ih]
    split
    · by_cases heq : q = r
      · rw [heq, Kernel.setProc_proc_self]
      · rw [Kernel.setProc_proc_of_ne _ _ heq]
    · rfl

/-- Who is no child of `p` keeps what it has. -/
theorem bequeath_proc {k : Kernel} (ps : List Slot) (hq : (k.proc q).parent ≠ some p) :
    (k.bequeath p ps).proc q = k.proc q := by
  induction ps generalizing k with
  | nil => rfl
  | cons r ps ih =>
    rw [Kernel.bequeath, List.foldl_cons, ← Kernel.bequeath]
    by_cases hr : (k.proc r).parent = some p
    · have hne : q ≠ r := by
        rintro rfl
        exact hq hr
      have hkept : (k.setProc r fun s => { s with parent := k.initproc }).proc q = k.proc q :=
        Kernel.setProc_proc_of_ne _ _ hne
      rw [if_pos hr, ih (by rwa [hkept]), hkept]
    · rw [if_neg hr, ih hq]

theorem bequeath_none {k : Kernel} {ps : List Slot}
    (hnone : ∀ q ∈ ps, (k.proc q).parent ≠ some p) : k.bequeath p ps = k := by
  induction ps with
  | nil => rfl
  | cons r ps ih =>
    rw [Kernel.bequeath, List.foldl_cons, if_neg (hnone r List.mem_cons_self), ← Kernel.bequeath]
    exact ih fun q hq => hnone q (List.mem_cons_of_mem _ hq)

theorem alone_reparent (ps : List Slot)
    (hliving : ∀ q, (w.kernel.proc q).parent = some p → (w.kernel.proc q).state ≠ .zombie) :
    Alone (platform img quiet) () (Program.forEach ps fun pp => do
      if (← readProc pp (·.parent)) = some p then
        write fun k => k.setProc pp fun s => { s with parent := k.initproc }
        if (← readProc pp (·.state)) = .zombie then
          let initproc ← read (·.initproc)
          if initproc.isSome then
            wakeup (initproc.map .proc)) w
      (.ok ((), w.withKernel (w.kernel.bequeath p ps))) := by
  induction ps generalizing w with
  | nil => exact .done ..
  | cons q ps ih =>
    have hlast : w.kernel.bequeath p (q :: ps) = (w.kernel.bequeath p [q]).bequeath p ps := rfl
    rw [hlast]
    have hrest := @ih (w.withKernel (w.kernel.bequeath p [q])) fun r hr => by
      by_cases hchild : (w.kernel.proc r).parent = some p
      · change ((w.kernel.bequeath p [q]).proc r).state ≠ .zombie
        rw [bequeath_state]
        exact hliving r hchild
      · exact absurd ((bequeath_proc [q] hchild).symm ▸ hr) hchild
    refine (?_ : Alone (platform img quiet) () _ w (.ok ((), _))).bind hrest
    by_cases hchild : (w.kernel.proc q).parent = some p
    · have hkept : w.kernel.bequeath p [q] =
          w.kernel.setProc q fun s => { s with parent := w.kernel.initproc } := if_pos hchild
      rw [hkept]
      refine alone_act_bind (alone_if_pos hchild (alone_act_bind ?_))
      refine alone_act_bind (alone_if_neg ?_ (.done ..))
      change ((w.kernel.setProc q fun s => { s with parent := w.kernel.initproc }).proc q).state ≠ _
      rw [Kernel.setProc_proc_self]
      exact hliving q hchild
    · have hkept : w.kernel.bequeath p [q] = w.kernel := if_neg hchild
      rw [hkept]
      exact alone_act_bind (alone_if_neg hchild (.done () w))

variable (img quiet) in
/-- A second lock is taken and the first one given back. -/
theorem World.Idles.traded {lk : Lock} (idles : w.Idles k proc cur sie) (hlk : lk ≠ .proc p)
    (k' : Kernel) :
    Alone (platform img quiet) () (release lk) (((w.taken () lk).taken () (.proc p)).withKernel k')
        (.ok ((), (((w.taken () lk).taken () (.proc p)).withKernel k').dropped () lk)) ∧
      ((((w.taken () lk).taken () (.proc p)).withKernel k').dropped () lk).Guards k' proc cur p
        sie := by
  let w₂ := ((w.taken () lk).taken () (.proc p)).withKernel k'
  have taken₂ : ((w.taken () lk).taken () (.proc p)).Off () :=
    World.off_taken (.inr (World.off_taken idles.steady lk)) (.proc p)
  have off₂ : w₂.Off () := ⟨taken₂.noff, taken₂.sie⟩
  have hother : w₂.lock lk = (w.taken () lk).lock lk := World.lock_taken_other hlk
  have hheld : w₂.lock lk = ⟨some (), some ()⟩ := hother.trans (World.lock_taken_self lk)
  have hnoff : (w₂.cpus ()).noff = 2 := by
    simp [w₂, World.withKernel, World.taken, World.pushed, World.setLock, World.setCpu,
      World.setSie, World.setCsr, idles.rests.noff]
  have hintena : (w₂.cpus ()).intena = sie := by
    simp [w₂, World.withKernel, World.taken, World.pushed, World.setLock, World.setCpu,
      World.setSie, World.setCsr, idles.rests.noff, idles.sie]
  have hproc : (w₂.cpus ()).proc = proc := by
    simpa [w₂, World.withKernel, World.taken, World.pushed, World.setLock, World.setCpu,
      World.setSie, World.setCsr] using idles.proc
  have hpopped : w₂.dropped () lk = (w₂.setLock lk fun _ => ⟨none, none⟩).setCpu ()
      fun c => { c with noff := c.noff - 1 } := by
    refine if_neg fun both => ?_
    have hone : (w₂.cpus ()).noff = 1 := both.1
    omega
  have hlocks : ((w₂.setLock lk fun _ => ⟨none, none⟩).setCpu () fun c =>
      { c with noff := c.noff - 1 }).lock = Function.update w₂.lock lk ⟨none, none⟩ := rfl
  refine ⟨alone_release off₂ hheld, ?_⟩
  rw [hpopped]
  refine ⟨rfl, ?_, fun lk' hlk' => ?_, ?_, ?_, off₂.sie, ?_, idles.cur⟩
  · rw [hlocks, Function.update_of_ne (Ne.symm hlk)]
    exact World.lock_taken_self _
  · rw [hlocks]
    by_cases heq : lk' = lk
    · rw [heq, Function.update_self]
    · rw [Function.update_of_ne heq]
      exact (World.lock_taken_other hlk').trans
        ((World.lock_taken_other heq).trans (idles.rests.free lk'))
  · simp [World.setLock, World.setCpu, hnoff]
  · simpa [World.setLock, World.setCpu] using hintena
  · simpa [World.setLock, World.setCpu] using hproc

/-- A process becomes a zombie. -/
def Kernel.orphaned (p : Slot) (status : CInt) (k : Kernel) : Kernel :=
  ((k.recordExit (some p) status).bequeath p slots).setProc p fun s =>
    { s with xstate := status, state := .zombie }

theorem orphaned_childless (status : CInt) (hnone : ∀ q, (k.proc q).parent ≠ some p) :
    k.orphaned p status = (k.recordExit (some p) status).setProc p fun s =>
      { s with xstate := status, state := .zombie } := by
  have hkept : (k.recordExit (some p) status).bequeath p slots = k.recordExit (some p) status :=
    bequeath_none fun q _ => hnone q
  rw [Kernel.orphaned, hkept]

variable (img quiet) in
theorem alone_exitZombie (status : CInt) (idles : w.Idles k (some p) cur sie)
    (hliving : ∀ q, (k.proc q).parent = some p → (k.proc q).state ≠ .zombie)
    (hawake : (k.proc p).parent = none ∨ ∀ q, (k.proc q).state ≠ .sleeping) :
    ∃ w', Alone (platform img quiet) () (exitZombie (some p) status) w (.ok ((), w')) ∧
      w'.Guards (k.orphaned p status) (some p) cur p sie := by
  let k₁ := k.recordExit (some p) status
  obtain ⟨k₂, hk₂⟩ : ∃ k₂, k₁.bequeath p slots = k₂ := ⟨_, rfl⟩
  let w₁ := w.withKernel k₁
  have idles₁ : w₁.Idles k₁ (some p) cur sie := idles.withKernel k₁
  have idles₂ : (w.withKernel k₂).Idles k₂ (some p) cur sie := idles.withKernel k₂
  let w₂ := (w.withKernel k₂).taken () .wait
  have off₂ : w₂.Off () := World.off_taken idles₂.steady .wait
  have hfree₂ : ∀ q, w₂.lock (.proc q) = ⟨none, none⟩ := fun q =>
    (World.lock_taken_other (by simp)).trans (idles₂.rests.free _)
  have hrecord : Alone (platform img quiet) () (write (Kernel.recordExit (some p) status)) w
      (.ok ((), w₁)) := by
    have hrun : Alone (platform img quiet) () (write (Kernel.recordExit (some p) status)) w
        (.ok ((), w.withKernel (w.kernel.recordExit (some p) status))) := alone_act _
    rwa [idles.kernel] at hrun
  have hreparent : Alone (platform img quiet) () (reparent (some p)) (w₁.taken () .wait)
      (.ok ((), w₂)) := by
    have hrun : Alone (platform img quiet) () (reparent (some p)) (w₁.taken () .wait) _ :=
      alone_reparent slots hliving
    rw [show (w₁.taken () .wait).kernel = k₁ from rfl, hk₂] at hrun
    exact hrun
  have hparent : Alone (platform img quiet) () (readProc p (·.parent) : Code Unit _) w₂
      (.ok ((k₂.proc p).parent, w₂)) := alone_act _
  have hwakeup : (k₂.proc p).parent.isSome = true → Alone (platform img quiet) ()
      (wakeup ((k₂.proc p).parent.map .proc)) w₂ (.ok ((), w₂)) := by
    intro hsome
    refine alone_wakeup_awake _ off₂ hfree₂ fun q => ?_
    change (k₂.proc q).state ≠ .sleeping
    rw [← hk₂, bequeath_state]
    refine hawake.resolve_left (fun horphan => ?_) q
    have hkept : k₂.proc p = k₁.proc p := hk₂ ▸ bequeath_proc slots fun heq => by
      have hsame : (k.proc p).parent = some p := heq
      rw [horphan] at hsame
      cases hsame
    have hsame : (k₂.proc p).parent = none := by rw [hkept]; exact horphan
    rw [hsame] at hsome
    cases hsome
  have hzombie : Alone (platform img quiet) () (writeProc p fun s =>
      { s with xstate := status, state := .zombie }) (w₂.taken () (.proc p))
      (.ok ((), (w₂.taken () (.proc p)).withKernel (k.orphaned p status))) := by
    rw [Kernel.orphaned, hk₂]
    exact alone_act _
  obtain ⟨hrelease, guards⟩ := idles₂.traded img quiet (nofun : Lock.wait ≠ .proc p)
    (k.orphaned p status)
  refine ⟨_, ?_, guards⟩
  refine hrecord.bind ((alone_acquire (idles₁.rests.free _)).bind (hreparent.bind ?_))
  refine alone_deref.bind (hparent.bind ?_)
  by_cases hsome : (k₂.proc p).parent.isSome = true
  · refine alone_if_pos hsome ((hwakeup hsome).bind ?_)
    exact (alone_acquire (hfree₂ p)).bind (hzombie.bind hrelease)
  · exact alone_if_neg hsome ((alone_acquire (hfree₂ p)).bind (hzombie.bind hrelease))

/-- What would follow `sched` in `exit_process`. -/
def afterExit (next : Empty → Code Unit Empty) (_ : Unit) : Code Unit Empty := do
  let never ← (panic "zombie exit" : Code Unit Empty)
  let held ← (pure never.elim : Code Unit (List Lock))
  let never ← .perform (.client held)
  next never

variable (img quiet saved) in
theorem leads_exit (next : Empty → Code Unit Empty) (status : CInt)
    (idles : w.Idles k (some p) (.proc p) sie) (hinit : k.initproc ≠ some p)
    (hliving : ∀ q, (k.proc q).parent = some p → (k.proc q).state ≠ .zombie)
    (hawake : (k.proc p).parent = none ∨ ∀ q, (k.proc q).state ≠ .sleeping) :
    ∃ w', Reachable (platform img quiet)
        (lone w (Program.perform (.client []) >>= next) saved)
        (lone w' (sched img >>= afterExit next) saved) ∧
      w'.Guards (k.orphaned p status) (some p) (.proc p) p sie := by
  obtain ⟨w', hzombie, guards⟩ := alone_exitZombie img quiet status
    idles.noted hliving hawake
  refine ⟨w', (leads_client (.exitProcess status)).trans ?_, guards⟩
  simp only [takeAction, if_true, exitProcess, bind_assoc]
  refine (leads_alone idles.myproc).trans ?_
  refine (leads_alone (idles.noted.read (·.initproc))).trans ?_
  rw [if_neg fun heq => hinit heq.symm]
  simp only [bind_assoc]
  exact leads_alone hzombie

/-! ## The first turns -/

/-- The registers with which a process leaves in these runs. -/
def frameOf (p : Slot) : Context := { Context.zero with s0 := kstackVa p + 0xf58 }

theorem inSched_frameOf : InSched sampleImage slot₀ (frameOf slot₀) ∧
    InSched sampleImage slot₁ (frameOf slot₁) ∧ InSched sampleImage slot₂ (frameOf slot₂) := by
  refine ⟨⟨?_, ?_⟩, ⟨?_, ?_⟩, ⟨?_, ?_⟩⟩ <;> decide

/-- Nothing but `p`, its history and the output has changed. -/
structure Apart (p : Slot) (k k' : Kernel) : Prop where
  proc : ∀ q, q ≠ p → k'.proc q = k.proc q
  parent : (k'.proc p).parent = (k.proc p).parent
  initproc : k'.initproc = k.initproc
  shadow : ∀ q, q ≠ p → k'.shadow q = k.shadow q
  memory : k'.memory = k.memory
  pids : PidsKept k k'
  pages : (k'.proc p).trapframe = (k.proc p).trapframe ∧
    (k'.proc p).pagetable = (k.proc p).pagetable

theorem Apart.trans (h : Apart p k k') (h' : Apart p k' k'') : Apart p k k'' :=
  ⟨fun q hq => (h'.proc q hq).trans (h.proc q hq), h'.parent.trans h.parent,
    h'.initproc.trans h.initproc, fun q hq => (h'.shadow q hq).trans (h.shadow q hq),
    h'.memory.trans h.memory, h.pids.trans h'.pids,
    h'.pages.1.trans h.pages.1, h'.pages.2.trans h.pages.2⟩

theorem Noted.apart (noted : Noted p k k') : Apart p k k' :=
  ⟨fun q _ => by rw [noted.proc], by rw [noted.proc], noted.initproc, noted.shadow,
    noted.memory, noted.pids, by rw [noted.proc], by rw [noted.proc]⟩

theorem apart_setProc (f : Proc → Proc) (hparent : (f (k.proc p)).parent = (k.proc p).parent)
    (hpages : (f (k.proc p)).trapframe = (k.proc p).trapframe ∧
      (f (k.proc p)).pagetable = (k.proc p).pagetable) : Apart p k (k.setProc p f) :=
  ⟨fun _ hq => Function.update_of_ne hq .., by simpa [Kernel.setProc] using hparent, rfl,
    fun _ _ => rfl, rfl, ⟨rfl, rfl⟩, by simpa [Kernel.setProc] using hpages⟩

theorem Apart.newborn {entry : Word} (apart : Apart p k k') (hq : q ≠ p)
    (newborn : Newborn img entry q k) : Newborn img entry q k' := by
  obtain ⟨hstate, hra, hs0, hparent, hentry, hoff⟩ := newborn
  constructor <;> simpa only [apart.proc q hq, apart.shadow q hq]

theorem Apart.orphans (apart : Apart p k k') (horphans : ∀ q, (k.proc q).parent = none) :
    ∀ q, (k'.proc q).parent = none := by
  intro q
  by_cases heq : q = p
  · rw [heq, apart.parent]
    exact horphans p
  · rw [apart.proc q heq]
    exact horphans q

variable (img quiet saved) in
/-- The scheduler dispatches a new process, which gives back its lock. -/
theorem hands_newborn (skipped rest : List Slot) (found : Bool)
    (next : Bool → Code Unit Empty) (idles : w.Idles k none (.cpu ()) sie)
    (hskip : ∀ q ∈ skipped, (k.proc q).state ≠ .runnable) (hp : (k.proc p).state = .runnable)
    (hnew : (k.proc p).context.ra = img.forkret) :
    ∃ w', Hands img quiet p k
        (lone w (schedScan (skipped ++ p :: rest) found >>= next) saved)
        (lone w' (afterRelease p)
          (Function.update saved (.cpu ()) (afterRun p rest next))) ∧
      w'.Idles ((k.setProc p fun s => { s with state := .running }).entering p sie) (some p)
        (.proc p) sie := by
  obtain ⟨w₁, hdispatch, guards⟩ := hands_dispatch img quiet saved skipped rest found next
    idles hskip hp
  have hra : (w₁.kernel.proc p).context.ra = img.forkret := by
    rw [guards.kernel]
    simpa using hnew
  rw [resumed_fresh hra] at hdispatch
  obtain ⟨w₂, hforkret, idles₂⟩ := leads_forkret img quiet
    (Function.update saved (.cpu ()) (afterRun p rest next)) guards
  exact ⟨w₂, hdispatch.after hforkret, idles₂⟩

variable (img quiet saved) in
/-- A new process gets as far as its entry function. -/
theorem leads_called {entry : Word} (skipped rest : List Slot) (found : Bool)
    (next : Bool → Code Unit Empty) (idles : w.Idles k none (.cpu ()) sie)
    (hskip : ∀ q ∈ skipped, (k.proc q).state ≠ .runnable) (hp : (k.proc p).state = .runnable)
    (hnew : (k.proc p).context.ra = img.forkret) (hfirst : (k.proc p).context.s0 = entry)
    (hentry : entry ≠ 0) :
    ∃ w' k', Reachable (platform img quiet)
        (lone w (schedScan (skipped ++ p :: rest) found >>= next) saved)
        (lone w' (Program.perform (.enter entry) >>= fun _ => afterEntry)
          (Function.update saved (.cpu ()) (afterRun p rest next))) ∧
      w'.Idles k' (some p) (.proc p) sie ∧ Apart p k k' ∧ (k'.proc p).state = .running := by
  obtain ⟨w₁, hnewborn, idles₁⟩ := hands_newborn img quiet saved
    skipped rest found next idles hskip hp hnew
  let k₁ := (k.setProc p fun s => { s with state := .running }).entering p sie
  have hs0 : (k₁.proc p).context.s0 = entry := by
    simpa [k₁, Kernel.entering] using hfirst
  obtain ⟨w₂, henter, idles₂⟩ := leads_enter img quiet
    (Function.update saved (.cpu ()) (afterRun p rest next)) idles₁ (by rw [hs0]; exact hentry)
  rw [hs0] at henter
  refine ⟨w₂, _, hnewborn.reachable.trans henter, idles₂, ?_, ?_⟩
  swap
  · have entered : Noted p k₁ (k₁.announced.entered p) :=
      noted_announced.trans (noted_setShadow _ rfl)
    rw [entered.proc]
    simp [k₁, Kernel.entering]
  have hrunning : Apart p k (k.setProc p fun s => { s with state := .running }) :=
    apart_setProc _ rfl ⟨rfl, rfl⟩
  exact hrunning.trans ((noted_setShadow _ rfl).trans
    (noted_announced.trans (noted_setShadow _ rfl))).apart

end Xv6Kernel.Process
