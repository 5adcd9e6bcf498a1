import Xv6Kernel.Process.LockOrder
import Xv6Kernel.Process.PageRuns

/-!
# The inversion of `create_process`

A process that creates another holds the lock of the new slot when it takes
`wait_lock`; `exit_process` and `wait_process` take the locks of the slots under it.
-/

namespace Xv6Kernel.Process

open Xv6Kernel.Foundation Xv6Kernel.Mm
open Relation (ReflTransGen TransGen)

variable {H : Type} [DecidableEq H] {img : Image} {α β : Type} {me : Option Slot}
  {held held' held'' : List Lock} {k k' k'' : Kernel} {lk : Lock} {p : Slot}

/-! ## Executions that nobody disturbs -/

/-- The hart runs for `me`, and all locks but `held` are free. -/
structure Solo (me : Option Slot) (held : List Lock) (k : Kernel) (h : H) (w : World H) :
    Prop where
  kernel : w.kernel = k
  current : (w.cpus h).proc = me
  free : ∀ lk, lk ∉ held → w.lock lk = ⟨none, none⟩

/-- Executed for `me`, the program turns `k` and `held` into `k'` and `held'`. -/
def Passes (img : Image) (me : Option Slot) (program : Code H α) (held : List Lock)
    (k : Kernel) (value : α) (held' : List Lock) (k' : Kernel) : Prop :=
  ∀ (h : H) (w : World H), Solo me held k h w → ∀ rest : α → Code H Unit,
    ∃ w', Solo me held' k' h w' ∧ ReflTransGen (Executes img)
      ⟨h, w, held, program >>= rest⟩ ⟨h, w', held', rest value⟩

variable {program : Code H α} {rest : α → Code H β} {value : α} {answer : β}

theorem Passes.bind (first : Passes img me program held k value held' k')
    (second : Passes img me (rest value) held' k' answer held'' k'') :
    Passes img me (program >>= rest) held k answer held'' k'' := by
  intro h w solo last
  obtain ⟨w₁, solo₁, hfirst⟩ := first h w solo fun value => rest value >>= last
  obtain ⟨w₂, solo₂, hsecond⟩ := second h w₁ solo₁ last
  refine ⟨w₂, solo₂, ?_⟩
  rw [Program.bind_assoc']
  exact hfirst.trans hsecond

theorem Passes.done (value : α) : Passes img me (.done value : Code H α) held k value held k :=
  fun _ w solo _ => ⟨w, solo, .refl⟩

theorem passes_act (f : Kernel → α × Kernel) :
    Passes img me (act fun _ w => ((f w.kernel).1, { w with kernel := (f w.kernel).2 }) :
      Code H α) held k (f k).1 held (f k).2 := by
  rintro h w ⟨rfl, hcurrent, hfree⟩ last
  have step : Executes img
      ⟨h, w, held, .step (.act fun _ w => ((f w.kernel).1,
        { w with kernel := (f w.kernel).2 })) last⟩
      ⟨h, { w with kernel := (f w.kernel).2 }, held, last (f w.kernel).1⟩ := .act
  exact ⟨{ w with kernel := (f w.kernel).2 }, ⟨rfl, hcurrent, hfree⟩, .single step⟩

theorem passes_read (f : Kernel → α) :
    Passes img me (read f : Code H α) held k (f k) held k :=
  passes_act fun k => (f k, k)

theorem passes_write (f : Kernel → Kernel) :
    Passes img me (write f : Code H Unit) held k () held (f k) :=
  passes_act fun k => ((), f k)

theorem Solo.taken {h : H} {w : World H} (solo : Solo me held k h w) (lk : Lock) :
    Solo me (lk :: held) k h (w.taken h lk) where
  kernel := solo.kernel
  current := (taken_current w h lk).trans solo.current
  free lk' hlk' := by
    rw [World.lock_taken_other (List.ne_of_not_mem_cons hlk')]
    exact solo.free lk' (List.not_mem_of_not_mem_cons hlk')

theorem Solo.dropped {h : H} {w : World H} (solo : Solo me held k h w) (lk : Lock) :
    Solo me (held.erase lk) k h (w.dropped h lk) where
  kernel := by
    unfold World.dropped World.popped
    split <;> exact solo.kernel
  current := (dropped_current w h lk).trans solo.current
  free lk' hlk' := by
    have hlock : (w.dropped h lk).lock lk' =
        Function.update w.lock lk ⟨none, none⟩ lk' := by
      unfold World.dropped World.popped
      split <;> rfl
    rw [hlock]
    by_cases heq : lk' = lk
    · subst heq
      rw [Function.update_self]
    · rw [Function.update_of_ne heq]
      exact solo.free lk' fun hmem => hlk' ((List.mem_erase_of_ne heq).mpr hmem)

theorem passes_acquire (hfree : lk ∉ held) :
    Passes img me (acquire lk : Code H Unit) held k () (lk :: held) k :=
  fun _ _ solo _ => ⟨_, solo.taken lk, .single (.acquire (solo.free lk hfree))⟩

theorem passes_release (hheld : lk ∈ held) :
    Passes img me (release lk : Code H Unit) held k () (held.erase lk) k :=
  fun _ _ solo _ => ⟨_, solo.dropped lk, .single (.release hheld)⟩

theorem passes_myproc : Passes img me (myproc : Code H (Option Slot)) held k me held k := by
  intro h w solo last
  refine ⟨w.noted h, ⟨solo.kernel, (noted_current w h).trans solo.current, solo.free⟩, ?_⟩
  rw [← solo.current]
  exact .single .myproc

theorem passes_locked (hfree : lk ∉ held) {rest : α → Code H β}
    (hbody : Passes img me program (lk :: held) k value (lk :: held) k')
    (hrest : Passes img me (rest value) held k' answer held'' k'') :
    Passes img me (acquire lk >>= fun _ => program >>= fun value =>
      release lk >>= fun _ => rest value) held k answer held'' k'' := by
  have hrelease : Passes img me (release lk : Code H Unit) (lk :: held) k' () held k' := by
    have h : Passes img me (release lk : Code H Unit) (lk :: held) k' ()
        ((lk :: held).erase lk) k' := passes_release List.mem_cons_self
    rwa [List.erase_cons_head] at h
  exact (passes_acquire hfree).bind (hbody.bind (hrelease.bind hrest))

theorem passes_skip {c : Prop} [Decidable c] {program : Code H Unit} (hc : ¬ c) :
    Passes img me (if c then program else pure ()) held k () held k := by
  rw [if_neg hc]
  exact .done ()

theorem passes_puts (call : Nat) (cs : List Char) :
    Passes img me (Program.forEach cs (consputc call) : Code H Unit) held k () held
      (k.sends call cs) := by
  induction cs generalizing k with
  | nil => exact .done ()
  | cons c cs ih =>
    rw [Kernel.sends_cons]
    exact (passes_write _).bind ih

theorem passes_printf (hfree : Lock.print ∉ held) (text : String) :
    Passes img me (printf text : Code H Unit) held k () held (k.print text) := by
  have h : Passes img me (acquire .print >>= fun _ =>
      Program.forEach text.toList (consputc k.calls) >>= fun value =>
        release .print >>= fun _ => .done value : Code H Unit) held
      { k with calls := k.calls + 1 } () held (k.print text) :=
    passes_locked hfree (passes_puts _ _) (.done ())
  exact (passes_act fun k => (k.calls, { k with calls := k.calls + 1 })).bind h

/-- A program of `kernel/mm` does what it does alone. -/
theorem passes_liftMem (hfree : Lock.kmem ∉ held) {program : MemM α} {m : Memory}
    (hexec : exec program k.memory = .ok (value, m)) :
    Passes img me (liftMem program : Code H α) held k value held { k with memory := m } := by
  induction program generalizing k with
  | done answer =>
    cases hexec
    exact .done _
  | step instruction next ih =>
    cases instruction with
    | touch f =>
      have hrest := ih (f k.memory).1 (k := { k with memory := (f k.memory).2 }) hexec
      exact (passes_act fun k => ((f k.memory).1, { k with memory := (f k.memory).2 })).bind hrest
    | critical f =>
      have hrest := ih (f k.memory).1 (k := { k with memory := (f k.memory).2 }) hexec
      exact passes_locked hfree
        (passes_act fun k => ((f k.memory).1, { k with memory := (f k.memory).2 })) hrest
    | panic message => cases hexec
    | diverge => cases hexec

/-! ## create_process -/

theorem passes_allocScan {ps : List Slot} (h : ∃ p ∈ ps, (k.proc p).state = .unused) :
    ∃ p, (k.proc p).state = .unused ∧
      Passes img me (allocScan ps : Code H (Option Slot)) [] k (some p) [.proc p] k := by
  induction ps with
  | nil =>
    obtain ⟨p, hp, -⟩ := h
    cases hp
  | cons q rest ih =>
    have htake : Passes img me (acquire (.proc q) : Code H Unit) [] k () [.proc q] k :=
      passes_acquire (List.not_mem_nil)
    by_cases hq : (k.proc q).state = .unused
    · refine ⟨q, hq, htake.bind ((passes_read fun k => (k.proc q).state).bind ?_)⟩
      rw [if_pos hq]
      exact .done _
    · obtain ⟨p, hp, hunused⟩ := h
      have hin : p ∈ rest := (List.mem_cons.mp hp).resolve_left fun heq => hq (heq ▸ hunused)
      obtain ⟨found, hfound, hrest⟩ := ih ⟨p, hin, hunused⟩
      refine ⟨found, hfound, htake.bind ((passes_read fun k => (k.proc q).state).bind ?_)⟩
      rw [if_neg hq]
      have hdrop : Passes img me (release (.proc q) : Code H Unit) [.proc q] k () [] k := by
        have h : Passes img me (release (.proc q) : Code H Unit) [.proc q] k ()
            ([Lock.proc q].erase (.proc q)) k := passes_release List.mem_cons_self
        rwa [List.erase_cons_head] at h
      exact hdrop.bind hrest

theorem passes_allocFound {pages : List Word} {trees : Option Slot → Tables}
    {others : Word → Prop} (p : Slot) (range : Ranged img) (tramp : Trampoline img)
    (owned : Ownership img k.memory pages trees others)
    (hempty : trees (some p) = fun _ => none) (hroom : 4 ≤ pages.length) :
    ∃ k', Passes img me (allocFound img p : Code H (Option Slot)) [.proc p] k (some p)
      [.proc p] k' := by
  have hfree : k.memory.freelist ≠ 0 := by
    intro hzero
    have hchain := owned.free.chain
    rw [hzero] at hchain
    have hnil : pages = [] := hchain.eq_nil_iff.mp rfl
    simp [hnil] at hroom
  obtain ⟨rest, rfl⟩ := owned.free.exists_cons hfree
  obtain ⟨-, m, pages', nodes, root, hexec, hbuilt⟩ :=
    (exec_procPagetable range tramp owned.pop hempty).resolve_right fun h => by
      simp only [List.length_cons] at hroom
      omega
  have hpid : Lock.pid ∉ [Lock.proc p] := by simp
  have hprint : Lock.print ∉ [Lock.proc p] := by simp
  have hkmem : Lock.kmem ∉ [Lock.proc p] := by simp
  have halloc : Passes img me (liftMem allocPage : Code H Word) [.proc p] (k.claimed p)
      k.memory.freelist [.proc p] { k.claimed p with memory := k.memory.pop } :=
    passes_liftMem hkmem (exec_allocPage hfree)
  have hpass : Passes img me (allocpid p : Code H CInt) [.proc p] k k.nextpid [.proc p]
      (k.pidTaken p) := by
    rw [allocpid_eq]
    exact passes_locked hpid ((passes_read (·.nextpid)).bind
      ((passes_write (Kernel.pidTaken p)).bind (.done _))) (.done _)
  have hlast : (Kernel.allocated img p m k.memory.freelist root k) =
      (({ ({ k.claimed p with memory := k.memory.pop }).setProc p fun s =>
          { s with trapframe := k.memory.freelist } with
          memory := m }).setProc p fun s => { s with pagetable := root }).setProc p fun s =>
            { s with context :=
              { Context.zero with ra := img.forkret, sp := s.kstack + pgSize } } := by
    simp [Kernel.allocated, Kernel.setProc]
  refine ⟨k.allocated img p m k.memory.freelist root, hpass.bind ((passes_write _).bind
    ((passes_printf hprint _).bind (halloc.bind ((passes_write _).bind ?_))))⟩
  rw [if_neg hfree]
  refine (passes_liftMem (k := Kernel.setProc _ _ _) hkmem hexec).bind ((passes_write _).bind ?_)
  rw [if_neg hbuilt.ne_zero, hlast]
  exact (passes_write _).bind (.done _)

/-! ## Where the program stands -/

/-- Executed for `me`, the program comes to take `lk` while it holds `lks`. -/
def Asks (img : Image) (me : Option Slot) (program : Code H α) (held : List Lock)
    (k : Kernel) (lk : Lock) (lks : List Lock) : Prop :=
  ∀ (h : H) (w : World H), Solo me held k h w → ∀ rest : α → Code H Unit,
    ∃ s, ReflTransGen (Executes img) ⟨h, w, held, program >>= rest⟩ s ∧ s.hart = h ∧
      s.held = lks ∧ s.Wants lk

theorem asks_acquire {rest : Unit → Code H β} :
    Asks img me (acquire lk >>= rest) held k lk held :=
  fun _ _ _ last => ⟨_, .refl, rfl, rfl, fun _ => rest () >>= last, rfl⟩

theorem Asks.then {lks : List Lock} (asks : Asks img me program held k lk lks) :
    Asks img me (program >>= rest) held k lk lks := by
  intro h w solo last
  rw [Program.bind_assoc']
  exact asks h w solo _

theorem Passes.asks {lks : List Lock} (first : Passes img me program held k value held' k')
    (asks : Asks img me (rest value) held' k' lk lks) :
    Asks img me (program >>= rest) held k lk lks := by
  intro h w solo last
  obtain ⟨w₁, solo₁, hfirst⟩ := first h w solo fun value => rest value >>= last
  obtain ⟨s, hpath, stands⟩ := asks h w₁ solo₁ last
  refine ⟨s, ?_, stands⟩
  rw [Program.bind_assoc']
  exact hfirst.trans hpath

/-- The creator holds the lock of the new slot when it takes `wait_lock`. -/
theorem asks_createProcess {pages : List Word} {trees : Option Slot → Tables}
    {others : Word → Prop} {c : Slot} (range : Ranged img) (tramp : Trampoline img)
    (owned : Ownership img k.memory pages trees others)
    (hempty : ∀ p, trees (some p) = fun _ => none) (hroom : 4 ≤ pages.length)
    (hunused : ∃ p, (k.proc p).state = .unused) (entrypoint : Word) :
    ∃ p, (k.proc p).state = .unused ∧ Asks img (some c)
      (createProcess img entrypoint : Code H CInt) [] k .wait [.proc p] := by
  obtain ⟨p, hp⟩ := hunused
  obtain ⟨found, hfound, hscan⟩ : ∃ p, (k.proc p).state = .unused ∧ Passes img (some c)
      (allocScan slots : Code H (Option Slot)) [] k (some p) [.proc p] k :=
    passes_allocScan ⟨p, List.mem_finRange p, hp⟩
  obtain ⟨k', hpass⟩ : ∃ k', Passes img (some c) (allocFound img found : Code H (Option Slot))
      [.proc found] k (some found) [.proc found] k' :=
    passes_allocFound found range tramp owned (hempty found) hroom
  have halloc : Passes img (some c) (allocProcess img : Code H (Option Slot)) [] k
      (some found) [.proc found] k' := hscan.bind hpass
  exact ⟨found, hfound, halloc.asks (passes_myproc.asks asks_acquire)⟩

/-! ## exit_process -/

/-- `wakeup` takes the locks of all slots but the caller's own. -/
theorem asks_wakeup {ps : List Slot} (chan : Option Chan) (hp : p ∈ ps) (hne : some p ≠ me)
    (hfree : ∀ q, Lock.proc q ∉ held) :
    Asks img me (Program.forEach ps fun p => do
      if some p ≠ (← myproc) then
        acquire (.proc p)
        write (Kernel.wake chan p)
        release (.proc p) : Code H Unit) held k (.proc p) held := by
  induction ps generalizing k with
  | nil => cases hp
  | cons q rest ih =>
    by_cases hq : q = p
    · subst hq
      refine Asks.then (passes_myproc.asks ?_)
      rw [if_pos hne]
      exact asks_acquire
    · have hrest := fun k => ih (k := k) ((List.mem_cons.mp hp).resolve_left (Ne.symm hq))
      by_cases hme : some q = me
      · exact (passes_myproc.bind (passes_skip (not_not.mpr hme))).asks (hrest k)
      · have hwake : Passes img me (if some q ≠ me then do
            acquire (.proc q)
            write (Kernel.wake chan q)
            release (.proc q)
          else pure () : Code H Unit) held k () held (k.wake chan q) := by
          rw [if_pos hme]
          exact passes_locked (hfree q) (passes_write _) (.done ())
        exact (passes_myproc.bind hwake).asks (hrest _)

theorem passes_reparent {e : Slot} (hnone : ∀ q, (k.proc q).parent ≠ some e) :
    Passes img me (reparent (some e) : Code H Unit) held k () held k := by
  unfold reparent
  induction slots with
  | nil => exact .done ()
  | cons q rest ih =>
    exact ((passes_read fun k => (k.proc q).parent).bind (passes_skip (hnone q))).bind ih

/-- A process that exits holds `wait_lock` when it wakes its parent. -/
theorem asks_exitProcess {c e : Slot} (hinit : k.initproc ≠ some e)
    (hnone : ∀ q, (k.proc q).parent ≠ some e) (hparent : (k.proc e).parent = some c)
    (hne : p ≠ e) (status : CInt) :
    Asks img (some e) (exitProcess img status : Code H Empty) [] k (.proc p) [.wait] := by
  have hwait : Passes img (some e) (acquire .wait : Code H Unit) []
      (k.recordExit (some e) status) () [.wait] (k.recordExit (some e) status) :=
    passes_acquire List.not_mem_nil
  have hnone' : ∀ q, ((k.recordExit (some e) status).proc q).parent ≠ some e := hnone
  refine passes_myproc.asks ((passes_read (·.initproc)).asks ?_)
  rw [if_neg (Ne.symm hinit)]
  refine Asks.then ((passes_write (Kernel.recordExit (some e) status)).asks (hwait.asks
    ((passes_reparent hnone').asks ((Passes.done e).asks
      ((passes_read fun k => (k.proc e).parent).asks ?_)))))
  have hparent' : ((k.recordExit (some e) status).proc e).parent = some c := hparent
  rw [hparent']
  exact Asks.then (asks_wakeup _ (List.mem_finRange p) (fun h => hne (Option.some.inj h))
    fun q => by simp)

/-! ## The cycle -/

/-- The process in `c` and its child in `e` run, and all other slots are unused. -/
def familyOf (c e : Slot) (memory : Memory) : Kernel :=
  ((afterProcinit memory).setProc c fun s => { s with state := .running }).setProc e fun s =>
    { s with state := .running, parent := some c }

/-- A hart runs `me` with all locks free. -/
def worldOf (me : Slot) (k : Kernel) : World H :=
  { bootWorld k.memory with kernel := k, cpus := fun _ => ⟨some me, .zero, 0, false⟩ }

omit [DecidableEq H] in
theorem solo_worldOf (me : Slot) (k : Kernel) (h : H) : Solo (some me) [] k h (worldOf me k) :=
  ⟨rfl, rfl, fun _ _ => rfl⟩

theorem familyOf_child (c e : Slot) (m : Memory) : ((familyOf c e m).proc e).parent = some c := by
  simp [familyOf, Kernel.setProc]

theorem familyOf_other {c e q : Slot} {m : Memory} (hq : q ≠ e) : (familyOf c e m).proc q =
    ((afterProcinit m).setProc c fun s => { s with state := .running }).proc q :=
  Function.update_of_ne hq ..

theorem familyOf_parent {c e : Slot} (hne : c ≠ e) (m : Memory) (q : Slot) :
    ((familyOf c e m).proc q).parent ≠ some e := by
  by_cases hq : q = e
  · subst hq
    rw [familyOf_child]
    exact fun h => hne (Option.some.inj h)
  · rw [familyOf_other hq]
    by_cases hc : q = c
    · subst hc
      simp [Kernel.setProc, afterProcinit]
    · simp [Kernel.setProc, hc, afterProcinit]

theorem familyOf_state {c e : Slot} (m : Memory) (q : Slot) :
    ((familyOf c e m).proc q).state = .unused ↔ q ≠ c ∧ q ≠ e := by
  by_cases hq : q = e
  · subst hq
    simp [familyOf, Kernel.setProc]
  · rw [familyOf_other hq]
    by_cases hc : q = c
    · subst hc
      simp [Kernel.setProc]
    · simp [Kernel.setProc, hc, hq, afterProcinit]

theorem exists_others (c : Slot) : ∃ e p : Slot, c ≠ e ∧ p ≠ c ∧ p ≠ e := by
  let first : Slot := ⟨0, by decide⟩
  let second : Slot := ⟨1, by decide⟩
  let third : Slot := ⟨2, by decide⟩
  by_cases hfirst : c = first
  · exact ⟨second, third, by rw [hfirst]; decide, by rw [hfirst]; decide, by decide⟩
  · by_cases hsecond : c = second
    · exact ⟨first, third, hfirst, by rw [hsecond]; decide, by decide⟩
    · exact ⟨first, second, hfirst, Ne.symm hsecond, by decide⟩

/-- After `pmm_init` there is memory for a process. -/
theorem exists_memory (himg : KernelImage img) : ∃ (m : Memory) (pages : List Word),
    Ownership img m pages (fun _ : Option Slot => fun _ => none) (fun _ => False) ∧
      4 ≤ pages.length := by
  obtain ⟨m, pages, -, hfree, hall⟩ := pmmInit_exec himg.ranged.ne_zero himg.below
    (show (⟨fun _ => 0, 0, 0⟩ : Memory).freelist = 0 from rfl)
  have hle := room_le himg.room hall
  exact ⟨m, pages, Ownership.init hfree hall, by omega⟩

/-- In one state of the process table the creator waits for the exiting child and the
child for the creator. -/
theorem exists_inversion (H : Type) [DecidableEq H] (himg : KernelImage img)
    (tramp : Trampoline img) (c : Slot) : ∃ e p k,
      Asks img (some c) (createProcess img 0 : Code H CInt) [] k .wait [.proc p] ∧
      Asks img (some e) (exitProcess img 0 : Code H Empty) [] k (.proc p) [.wait] := by
  obtain ⟨e, q, hne, hqc, hqe⟩ := exists_others c
  obtain ⟨m, pages, owned, hroom⟩ := exists_memory himg
  obtain ⟨p, hp, hcreate⟩ := asks_createProcess (H := H) (k := familyOf c e m) (c := c)
    himg.ranged tramp owned (fun _ => rfl) hroom ⟨q, (familyOf_state m q).mpr ⟨hqc, hqe⟩⟩ 0
  have hinit : (familyOf c e m).initproc ≠ some e := nofun
  exact ⟨e, p, familyOf c e m, hcreate, asks_exitProcess hinit
    (familyOf_parent hne m) (familyOf_child c e m) ((familyOf_state m p).mp hp).2 0⟩

variable {creators : Slot → Prop} {c : Slot}

theorem cycle_of_creator (himg : KernelImage img) (tramp : Trampoline img) (hart : H)
    (hc : creators c) : ¬ Acyclic (LockOrder H img creators) := by
  obtain ⟨e, p, k, hcreate, hexit⟩ := exists_inversion H himg tramp c
  obtain ⟨s, hpath, -, hheld, hwants⟩ := hcreate hart _ (solo_worldOf c k hart) fun _ => pure ()
  obtain ⟨s', hpath', -, hheld', hwants'⟩ :=
    hexit hart _ (solo_worldOf e k hart) fun never => never.elim
  have hcreator : ∀ q, ((worldOf c k : World H).cpus hart).proc = some q → creators q := by
    rintro q hq
    cases hq
    exact hc
  have hup : LockOrder H img creators (.proc p) .wait :=
    ⟨s, ⟨_, .createProcess 0 hcreator, hpath⟩, by simp [hheld], hwants⟩
  have hdown : LockOrder H img creators .wait (.proc p) :=
    ⟨s', ⟨_, .exitProcess hart _ 0, hpath'⟩, by simp [hheld'], hwants'⟩
  exact fun acyclic => acyclic _ (.tail (.single hup) hdown)

theorem deadlock_of_creator (himg : KernelImage img) (tramp : Trampoline img) {h h' : H}
    (hne : h ≠ h') (hc : creators c) : Deadlock H img creators := by
  obtain ⟨e, p, k, hcreate, hexit⟩ := exists_inversion H himg tramp c
  obtain ⟨s, hpath, hhart, hheld, hwants⟩ := hcreate h _ (solo_worldOf c k h) fun _ => pure ()
  obtain ⟨s', hpath', hhart', hheld', hwants'⟩ :=
    hexit h' _ (solo_worldOf e k h') fun never => never.elim
  have hcreator : ∀ q, ((worldOf c k : World H).cpus h).proc = some q → creators q := by
    rintro q hq
    cases hq
    exact hc
  refine ⟨{h, h'}, fun g => if g = h then s else s', fun g => if g = h then .wait else .proc p,
    fun g => if g = h then h' else h, by simp, fun g hg => ?_⟩
  rcases Finset.mem_insert.mp hg with rfl | hg
  · simp only [if_true, Ne.symm hne, if_false]
    exact ⟨hhart, ⟨_, .createProcess 0 hcreator, hpath⟩, hwants, by simp, by simp [hheld']⟩
  · obtain rfl := Finset.mem_singleton.mp hg
    simp only [if_true, Ne.symm hne, if_false]
    exact ⟨hhart', ⟨_, .exitProcess _ _ 0, hpath'⟩, hwants', by simp, by simp [hheld]⟩

variable (H) in
/-- The locks have an order, so that harts cannot spin in a ring. -/
structure LocksOrdered (img : Image) (creators : Slot → Prop) : Prop where
  acyclic : Acyclic (LockOrder H img creators)
  live : ¬ Deadlock H img creators

/-- The locks are ordered exactly if no process calls `create_process`. -/
theorem locks_ordered_iff (himg : KernelImage img) (tramp : Trampoline img) (hart : H) :
    LocksOrdered H img creators ↔ ∀ p, ¬ creators p := by
  constructor
  · exact fun ordered p hp => cycle_of_creator himg tramp hart hp ordered.acyclic
  · intro hnone
    have acyclic : Acyclic (LockOrder H img creators) := acyclic_of_none hnone
    exact ⟨acyclic, Deadlock.absurd acyclic⟩

theorem locks_ordered_sample : LocksOrdered Bool sampleImage fun _ => False := by
  obtain ⟨himg, tramp, -⟩ := sampleImage_ok
  exact (locks_ordered_iff himg tramp true).mpr fun _ => id

/-- A creator on one hart and its exiting child on another wait for each other. -/
theorem locks_inverted : ¬ LocksOrdered Bool sampleImage fun _ => True := by
  obtain ⟨himg, tramp, -⟩ := sampleImage_ok
  let creator : Slot := ⟨0, by decide⟩
  have hne : true ≠ false := nofun
  have deadlock : Deadlock Bool sampleImage fun _ => True :=
    deadlock_of_creator (c := creator) himg tramp hne trivial
  exact fun ordered => ordered.live deadlock

end Xv6Kernel.Process
