import Xv6Kernel.Foundation.Accesses
import Xv6Kernel.Process.Machine

/-!
# What the code may write

No access makes a slot `UNUSED` but the last one of `free_process`, which also resets what
the occupant could have left, and none writes these fields of an unused slot.  No access
sends a byte but those of `printf`.
-/

namespace Xv6Kernel.Process

open Xv6Kernel.Foundation Xv6Kernel.Mm

variable {H : Type} {α β : Type}

/-- Nothing of an occupant is left in the fields that `alloc_process` does not write. -/
def Proc.Blank (s : Proc) : Prop :=
  s.chan = none ∧ s.xstate = 0 ∧ s.sz = 0 ∧ s.name0 = 0

/-- The slot has its own kernel stack, and is blank when it is not in use. -/
def Proc.Tidy (p : Slot) (s : Proc) : Prop :=
  s.kstack = kstackVa p ∧ (s.state = .unused → s.Blank)

def Kernel.Tidy (k : Kernel) : Prop := ∀ p, (k.proc p).Tidy p

def World.Tidy (w : World H) : Prop := w.kernel.Tidy

theorem Proc.Tidy.busy {p : Slot} {s s' : Proc} (tidy : s.Tidy p) (hkstack : s'.kstack = s.kstack)
    (hstate : s'.state ≠ .unused) : s'.Tidy p :=
  ⟨hkstack.trans tidy.1, fun hunused => absurd hunused hstate⟩

theorem Proc.Tidy.cleared {p : Slot} {s : Proc} (tidy : s.Tidy p) : s.cleared.Tidy p :=
  ⟨tidy.1, fun _ => ⟨rfl, rfl, rfl, rfl⟩⟩

theorem Kernel.Tidy.update {k k' : Kernel} (tidy : k.Tidy) {p : Slot} {s : Proc}
    (hproc : k'.proc = Function.update k.proc p s) (hs : s.Tidy p) : k'.Tidy := by
  intro q
  rw [hproc]
  by_cases heq : q = p
  · subst heq
    rwa [Function.update_self]
  · rw [Function.update_of_ne heq]
    exact tidy q

theorem Kernel.Tidy.use {k k' : Kernel} (tidy : k.Tidy) {p : Slot} {s : Proc}
    (hproc : k'.proc = Function.update k.proc p s) (hkstack : s.kstack = (k.proc p).kstack)
    (hstate : s.state ≠ .unused) : k'.Tidy :=
  tidy.update hproc ((tidy p).busy hkstack hstate)

/-- What has been printed, and by whom. -/
def Kernel.output (k : Kernel) : List Char × Nat × List Nat × Bool :=
  (k.console, k.calls, k.senders, k.sending)

/-- Neither the pages of the slot nor its being in use have changed, provided that only
`alloc_process` makes a slot `USED`. -/
def Proc.KeepsPages (s s' : Proc) : Prop :=
  s'.trapframe = s.trapframe ∧ s'.pagetable = s.pagetable ∧
    (s'.state = s.state ∨ s'.state ≠ .unused ∧ s'.state ≠ .used)

def Kernel.KeepsPages (k k' : Kernel) : Prop :=
  k'.memory = k.memory ∧ ∀ p, (k.proc p).KeepsPages (k'.proc p)

theorem Kernel.KeepsPages.same {k k' : Kernel} (hmemory : k'.memory = k.memory)
    (hproc : k'.proc = k.proc) : k.KeepsPages k' := by
  refine ⟨hmemory, fun p => ?_⟩
  rw [hproc]
  exact ⟨rfl, rfl, .inl rfl⟩

theorem Kernel.KeepsPages.update {k k' : Kernel} {p : Slot} {s : Proc}
    (hmemory : k'.memory = k.memory) (hproc : k'.proc = Function.update k.proc p s)
    (hs : (k.proc p).KeepsPages s) : k.KeepsPages k' := by
  refine ⟨hmemory, fun q => ?_⟩
  rw [hproc]
  by_cases heq : q = p
  · subst heq
    rwa [Function.update_self]
  · rw [Function.update_of_ne heq]
    exact ⟨rfl, rfl, .inl rfl⟩

/-- What an access outside `printf` does; if `kept`, then outside `alloc_process` and
`free_process` too. -/
structure Harmless (kept : Bool) (k k' : Kernel) : Prop where
  tidy : k.Tidy → k'.Tidy
  output : k'.output = k.output
  pages : kept = true → k.KeepsPages k'

def Instr.IsAct : Instr H β → Prop
  | .act _ => True
  | _ => False

/-- The code sends bytes by `printf` only, and leaves the process table tidy. -/
inductive Tame (kept : Bool) : Code H α → Prop where
  | done (value : α) : Tame kept (.done value)
  | access {β : Type} {f : H → World H → β × World H} {next : β → Code H α}
      (hf : ∀ h w, Harmless kept w.kernel (f h w).2.kernel)
      (hnext : ∀ answer, Tame kept (next answer)) : Tame kept (.step (.act f) next)
  | other {β : Type} {i : Instr H β} {next : β → Code H α} (hi : ¬ i.IsAct)
      (hnext : ∀ answer, Tame kept (next answer)) : Tame kept (.step i next)
  | print (text : String) {rest : Unit → Code H α} (hrest : ∀ u, Tame kept (rest u)) :
      Tame kept (printf text >>= rest)

namespace Tame

variable {kept : Bool}

theorem pure (value : α) : Tame kept (Pure.pure value : Code H α) := .done value

theorem bind {code : Code H α} {rest : α → Code H β} (hcode : Tame kept code)
    (hrest : ∀ value, Tame kept (rest value)) : Tame kept (code >>= rest) := by
  induction hcode with
  | done value => exact hrest value
  | access hf _ ih => exact .access hf fun answer => ih answer
  | other hi _ ih => exact .other hi fun answer => ih answer
  | print text _ ih =>
    rw [bind_assoc]
    exact .print text fun u => ih u

theorem perform {i : Instr H α} (hi : ¬ i.IsAct) : Tame kept (.perform i) :=
  .other hi fun answer => .done answer

theorem ite {c : Prop} [Decidable c] {p q : Code H α} (hp : Tame kept p) (hq : Tame kept q) :
    Tame kept (if c then p else q) := by
  split
  · exact hp
  · exact hq

theorem when {c : Prop} [Decidable c] {p : Code H Unit} {rest : Unit → Code H β}
    (hp : Tame kept p) (hrest : ∀ u, Tame kept (rest u)) :
    Tame kept (if c then p >>= rest else rest ()) :=
  ite (bind hp hrest) (hrest ())

theorem forEach {ι : Type} {items : List ι} {body : ι → Code H Unit}
    (hbody : ∀ item, Tame kept (body item)) : Tame kept (Program.forEach items body) := by
  induction items with
  | nil => exact .done ()
  | cons item items ih => exact bind (hbody item) fun _ => ih

/-! ## Accesses -/

theorem writes {f : H → World H → β × World H}
    (hf : ∀ h w, Harmless kept w.kernel (f h w).2.kernel) : Tame kept (act f) :=
  .access hf fun answer => .done answer

/-- An access that leaves the process table, the output and the memory alone. -/
theorem still {f : H → World H → β × World H}
    (hf : ∀ h w, (f h w).2.kernel.proc = w.kernel.proc ∧
      (f h w).2.kernel.output = w.kernel.output ∧
      (f h w).2.kernel.memory = w.kernel.memory) : Tame kept (act f) := by
  refine writes fun h w => ?_
  obtain ⟨hproc, houtput, hmemory⟩ := hf h w
  exact ⟨fun tidy p => by rw [hproc]; exact tidy p, houtput, fun _ => .same hmemory hproc⟩

theorem read (f : Kernel → β) : Tame kept (Process.read f : Code H β) :=
  still fun _ _ => ⟨rfl, rfl, rfl⟩

theorem write {f : Kernel → Kernel} (hf : ∀ k, Harmless kept k (f k)) :
    Tame kept (Process.write f : Code H Unit) :=
  writes fun _ w => hf w.kernel

/-- Only history and single variables are written. -/
theorem note {f : Kernel → Kernel} (hf : ∀ k, (f k).proc = k.proc ∧ (f k).output = k.output ∧
    (f k).memory = k.memory) : Tame kept (Process.write f : Code H Unit) :=
  still fun _ w => hf w.kernel

theorem readProc (p : Slot) (f : Proc → β) : Tame kept (Process.readProc p f : Code H β) := read _

theorem writeProc {p : Slot} {f : Proc → Proc} (hf : ∀ s, s.Tidy p → (f s).Tidy p)
    (hpages : kept = true → ∀ s, Proc.KeepsPages s (f s)) :
    Tame kept (Process.writeProc p f : Code H Unit) :=
  write fun _ => ⟨fun tidy => tidy.update rfl (hf _ (tidy p)), rfl, fun hkept =>
    .update rfl rfl (hpages hkept _)⟩

theorem use {p : Slot} {f : Proc → Proc} (hkstack : ∀ s, (f s).kstack = s.kstack)
    (hstate : ∀ s, (f s).state ≠ .unused) (hpages : kept = true → ∀ s, Proc.KeepsPages s (f s)) :
    Tame kept (Process.writeProc p f : Code H Unit) :=
  writeProc (fun s tidy => tidy.busy (hkstack s) (hstate s)) hpages

/-- A live process changes its state. -/
theorem turn {p : Slot} {f : Proc → Proc} {state : ProcState}
    (hf : ∀ s, (f s).kstack = s.kstack ∧ (f s).state = state ∧ (f s).trapframe = s.trapframe ∧
      (f s).pagetable = s.pagetable) (hbusy : state ≠ .unused ∧ state ≠ .used) :
    Tame kept (Process.writeProc p f : Code H Unit) := by
  refine use (fun s => (hf s).1) (fun s => ?_) fun _ s => ?_
  · rw [(hf s).2.1]
    exact hbusy.1
  · obtain ⟨-, hstate, hpages⟩ := hf s
    exact ⟨hpages.1, hpages.2, .inr (hstate ▸ hbusy)⟩

theorem panic (message : String) : Tame kept (Process.panic message : Code H α) := perform id

theorem choose : Tame kept (Process.choose α : Code H α) := perform id

theorem deref (pointer : Option α) : Tame kept (Process.deref pointer : Code H α) := by
  cases pointer with
  | none => exact panic _
  | some target => exact pure target

theorem acquire (lk : Lock) : Tame kept (Process.acquire lk : Code H Unit) := perform id
theorem release (lk : Lock) : Tame kept (Process.release lk : Code H Unit) := perform id
theorem myproc : Tame kept (Process.myproc : Code H (Option Slot)) := perform id

theorem printf (text : String) : Tame kept (Process.printf text : Code H Unit) := by
  rw [← Program.bind_pure' (Process.printf text)]
  exact .print text fun u => .done u

variable {img : Image} [DecidableEq H]

/-! ## spinlock.c -/

theorem pushOff : Tame kept (Process.pushOff : Code H Unit) :=
  bind (still fun _ _ => ⟨rfl, rfl, rfl⟩) fun _ => bind (still fun _ _ => ⟨rfl, rfl, rfl⟩) fun _ =>
    bind (still fun _ _ => ⟨rfl, rfl, rfl⟩) fun _ =>
      when (still fun _ _ => ⟨rfl, rfl, rfl⟩) fun _ =>
        still fun _ _ => ⟨rfl, rfl, rfl⟩

theorem popOff : Tame kept (Process.popOff : Code H Unit) :=
  bind (still fun _ _ => ⟨rfl, rfl, rfl⟩) fun _ => when (panic _) fun _ =>
    bind (still fun _ _ => ⟨rfl, rfl, rfl⟩) fun _ => when (panic _) fun _ =>
      bind (still fun _ _ => ⟨rfl, rfl, rfl⟩) fun _ =>
        bind (still fun _ _ => ⟨rfl, rfl, rfl⟩) fun _ =>
          ite (bind (still fun _ _ => ⟨rfl, rfl, rfl⟩) fun _ =>
            ite (still fun _ _ => ⟨rfl, rfl, rfl⟩) (pure _))
          (pure _)

theorem holding (lk : Lock) : Tame kept (Process.holding lk : Code H Bool) :=
  bind (still fun _ _ => ⟨rfl, rfl, rfl⟩) fun _ => ite
    (bind (still fun _ _ => ⟨rfl, rfl, rfl⟩) fun _ =>
      bind (still fun _ _ => ⟨rfl, rfl, rfl⟩) fun _ => pure _)
    (pure _)

omit [DecidableEq H] in
theorem spinBody (lk : Lock) : Tame kept (Process.spinBody lk : Code H Unit) := by
  have test : Tame kept (testAndSet lk : Code H Bool) := by
    refine still fun h w => ?_
    cases (w.lock lk).locked <;> exact ⟨rfl, rfl, rfl⟩
  exact bind test fun _ => ite (perform id) (pure _)

theorem acquireBody (lk : Lock) : Tame kept (Process.acquireBody lk : Code H Unit) :=
  bind pushOff fun _ => bind (holding lk) fun _ => when (panic _) fun _ =>
    bind (perform id) fun _ => still fun _ _ => ⟨rfl, rfl, rfl⟩

theorem releaseBody (lk : Lock) : Tame kept (Process.releaseBody lk : Code H Unit) :=
  bind (holding lk) fun _ => when (panic _) fun _ =>
    bind (still fun _ _ => ⟨rfl, rfl, rfl⟩) fun _ =>
      bind (still fun _ _ => ⟨rfl, rfl, rfl⟩) fun _ => popOff

theorem myprocBody : Tame kept (Process.myprocBody : Code H (Option Slot)) :=
  bind pushOff fun _ => bind (still fun _ _ => ⟨rfl, rfl, rfl⟩) fun _ => bind popOff fun _ => pure _

/-! ## Memory and the output -/

omit [DecidableEq H] in
theorem liftMem (program : MemM α) : Tame false (Process.liftMem program : Code H α) := by
  induction program with
  | done value => exact .done _
  | step i next ih =>
    cases i with
    | touch f => exact bind (writes fun _ _ => ⟨id, rfl, nofun⟩) ih
    | critical f =>
      exact bind (acquire _) fun _ => bind (writes fun _ _ => ⟨id, rfl, nofun⟩) fun answer =>
        bind (release _) fun _ => ih answer
    | panic message => exact panic _
    | diverge => exact perform id


/-! ## Slots -/

omit [DecidableEq H] in
theorem freeProcess (p : Slot) (reaper : Option Slot) :
    Tame false (Process.freeProcess img p reaper : Code H Unit) := by
  have clear : Tame false (Process.write (Kernel.cleared p reaper) : Code H Unit) := by
    refine write fun k => ?_
    have hclear : Harmless false k (k.setProc p Proc.cleared) :=
      ⟨fun tidy => tidy.update rfl (tidy p).cleared, rfl, nofun⟩
    cases reaper with
    | none => exact ⟨hclear.tidy, rfl, nofun⟩
    | some r => exact ⟨hclear.tidy, rfl, nofun⟩
  exact bind (readProc ..) fun _ => when (liftMem _) fun _ => bind (writeProc (fun _ => id) nofun)
    fun _ => bind (readProc ..) fun _ =>
      ite (bind (readProc ..) fun _ => bind (liftMem _) fun _ => clear) clear

omit [DecidableEq H] in
theorem allocpid (p : Slot) : Tame kept (Process.allocpid p : Code H CInt) :=
  bind (acquire _) fun _ => bind (read _) fun _ => bind (note fun _ => ⟨rfl, rfl, rfl⟩) fun _ =>
    bind (release _) fun _ => pure _

omit [DecidableEq H] in
theorem allocScan (ps : List Slot) :
    Tame kept (Process.allocScan ps : Code H (Option Slot)) := by
  induction ps with
  | nil => exact .done _
  | cons p ps ih =>
    exact bind (acquire _) fun _ => bind (readProc ..) fun _ =>
      ite (pure _) (bind (release _) fun _ => ih)

omit [DecidableEq H] in
theorem allocFound (p : Slot) :
    Tame false (Process.allocFound img p : Code H (Option Slot)) := by
  have fail : Tame false (do
      Process.freeProcess img p none
      Process.release (.proc p)
      return none : Code H (Option Slot)) :=
    bind (freeProcess ..) fun _ => bind (release _) fun _ => pure _
  refine bind (allocpid p) fun pid => bind (use (fun _ => rfl) (fun _ => ProcState.noConfusion) nofun) fun _ =>
    bind (printf _) fun _ => bind (liftMem _) fun trapframe =>
      bind (writeProc (fun _ => id) nofun) fun _ => ite fail ?_
  exact bind (liftMem _) fun pagetable => bind (writeProc (fun _ => id) nofun) fun _ => ite fail
    (bind (writeProc (fun _ => id) nofun) fun _ => pure _)

omit [DecidableEq H] in
theorem allocProcess : Tame false (Process.allocProcess img : Code H (Option Slot)) := by
  refine bind (allocScan _) fun found => ?_
  cases found with
  | none => exact pure _
  | some p => exact allocFound p

omit [DecidableEq H] in
theorem createWith (p : Slot) (entrypoint : Word) :
    Tame kept (Process.createWith p entrypoint : Code H CInt) := by
  have publish : ∀ currP, Tame kept (do
      let child ← Process.read fun k => (k.shadow p).serial
      Process.write fun k =>
        (k.setProc p fun s =>
          { s with context := { s.context with s0 := entrypoint }, state := .runnable }).fork
          p currP entrypoint
      Process.release (.proc p)
      act fun _ w =>
        ((w.kernel.proc p).pid, { w with kernel := w.kernel.recordCreated p currP child }) :
      Code H CInt) := fun currP =>
    bind (read _) fun _ =>
      bind (write fun k => ⟨fun tidy => tidy.use rfl rfl (fun h => nomatch h), rfl,
      fun _ => .update rfl rfl ⟨rfl, rfl, .inr ⟨nofun, nofun⟩⟩⟩) fun _ =>
        bind (release _) fun _ => still fun _ _ => ⟨rfl, rfl, rfl⟩
  exact bind myproc fun currP => ite (bind (acquire _) fun _ =>
    bind (writeProc (fun _ => id) fun _ _ => ⟨rfl, rfl, .inl rfl⟩) fun _ =>
      bind (release _) fun _ => publish currP)
    (publish currP)

omit [DecidableEq H] in
theorem createProcess (entrypoint : Word) :
    Tame false (Process.createProcess img entrypoint : Code H CInt) := by
  refine bind allocProcess fun found => ?_
  cases found with
  | none => exact panic _
  | some p => exact createWith p entrypoint

omit [DecidableEq H] in
/-- `userinit` after `alloc_process`. -/
theorem named (found : Option Slot) : Tame kept (do
    Process.write fun k => { k with initproc := found }
    match found with
    | none => Process.panic "kerneltrap: store/AMO page fault"
    | some p =>
      Process.write fun k =>
        { (k.setProc p fun s =>
            { s with
              context := { s.context with s0 := img.initTask, ra := img.forkret }
              state := .runnable }).fork p none img.initTask with
          booted := true }
      Process.release (.proc p)
      let pid ← Process.readProc p (·.pid)
      Process.printf ("userinit: created init process pid " ++ decimal pid ++ "\n") :
    Code H Unit) := by
  refine bind (note fun _ => ⟨rfl, rfl, rfl⟩) fun _ => ?_
  cases found with
  | none => exact panic _
  | some p =>
    exact bind (write fun k => ⟨fun tidy => tidy.use rfl rfl (fun h => nomatch h), rfl,
      fun _ => .update rfl rfl ⟨rfl, rfl, .inr ⟨nofun, nofun⟩⟩⟩) fun _ =>
      bind (release _) fun _ => bind (readProc ..) fun _ => printf _

omit [DecidableEq H] in
theorem userinit : Tame false (Process.userinit img : Code H Unit) :=
  bind allocProcess named

/-! ## Switching -/

omit [DecidableEq H] in
theorem swtchToCpu (p : Slot) : Tame kept (Process.swtchToCpu img p : Code H Unit) :=
  bind (still fun _ _ => ⟨rfl, rfl, rfl⟩) fun _ => bind choose fun _ => perform id

omit [DecidableEq H] in
theorem swtchToProc (p : Slot) : Tame kept (Process.swtchToProc p : Code H Unit) :=
  bind (still fun _ _ => ⟨rfl, rfl, rfl⟩) fun _ => bind choose fun _ => perform id

theorem sched : Tame kept (Process.sched img : Code H Unit) :=
  bind myproc fun _ => bind (deref _) fun p => bind (holding _) fun _ =>
    when (panic _) fun _ => bind (still fun _ _ => ⟨rfl, rfl, rfl⟩) fun _ =>
      when (panic _) fun _ => bind (readProc ..) fun _ =>
        when (panic _) fun _ => bind (still fun _ _ => ⟨rfl, rfl, rfl⟩) fun _ =>
          when (panic _) fun _ => bind (still fun _ _ => ⟨rfl, rfl, rfl⟩) fun _ =>
            bind (swtchToCpu p) fun _ => still fun _ _ => ⟨rfl, rfl, rfl⟩

theorem schedScan (ps : List Slot) (found : Bool) :
    Tame kept (Process.schedScan ps found : Code H Bool) := by
  induction ps generalizing found with
  | nil => exact .done _
  | cons p ps ih =>
    refine bind (acquire _) fun _ => bind (readProc ..) fun _ => ite ?_ ?_
    · refine bind (writes fun h w => ⟨fun tidy => tidy.use rfl rfl (fun h => nomatch h), rfl,
      fun _ => .update rfl rfl ⟨rfl, rfl, .inr ⟨nofun, nofun⟩⟩⟩)
        fun _ => ?_
      exact bind (swtchToProc p) fun _ => bind (still fun _ _ => ⟨rfl, rfl, rfl⟩) fun _ =>
        bind (release _) fun _ => ih true
    · exact bind (release _) fun _ => ih found

theorem schedulingBody : Tame kept (Process.schedulingBody : Code H Empty) :=
  bind (still fun _ _ => ⟨rfl, rfl, rfl⟩) fun _ => bind (still fun _ _ => ⟨rfl, rfl, rfl⟩) fun _ =>
    bind (schedScan _ _) fun _ => when (perform id) fun _ => perform id

theorem scheduler : Tame kept (Process.scheduler : Code H Empty) :=
  bind (still fun _ _ => ⟨rfl, rfl, rfl⟩) fun _ => perform id

theorem yield : Tame kept (Process.yield img : Code H Unit) :=
  bind myproc fun _ => bind (deref _) fun _ => bind (acquire _) fun _ =>
    bind (turn (fun _ => ⟨rfl, rfl, rfl, rfl⟩) (by decide)) fun _ =>
      bind sched fun _ => release _

/-! ## Sleep, wakeup, exit and wait -/

theorem sleep (chan : Option Chan) (lk : Option Lock) :
    Tame kept (Process.sleep img chan lk : Code H Unit) := by
  refine bind myproc fun p => ?_
  cases p with
  | none => exact panic _
  | some p =>
    cases lk with
    | none => exact panic _
    | some lk =>
      have turn : Tame kept (do
          Process.writeProc p fun s => { s with chan, state := .sleeping }
          Process.sched img
          Process.writeProc p fun s => { s with chan := none }
          if lk ≠ .proc p then
            Process.release (.proc p)
            Process.acquire lk : Code H Unit) :=
        bind (turn (fun _ => ⟨rfl, rfl, rfl, rfl⟩) (by decide)) fun _ =>
          bind sched fun _ =>
          bind (writeProc (fun s tidy => ⟨tidy.1, fun h => ⟨rfl, (tidy.2 h).2⟩⟩)
            fun _ _ => ⟨rfl, rfl, .inl rfl⟩) fun _ =>
            ite (bind (release _) fun _ => acquire _) (pure _)
      exact ite (bind (acquire _) fun _ => bind (release _) fun _ => turn) turn

omit [DecidableEq H] in
theorem wakeup (chan : Option Chan) : Tame kept (Process.wakeup chan : Code H Unit) := by
  refine forEach fun p => bind myproc fun _ => ite ?_ (pure _)
  refine bind (acquire _) fun _ => bind (write fun k => ?_) fun _ => release _
  unfold Kernel.wake
  split
  · exact ⟨fun tidy => tidy.use rfl rfl (fun h => nomatch h), rfl,
      fun _ => .update rfl rfl ⟨rfl, rfl, .inr ⟨nofun, nofun⟩⟩⟩
  · exact ⟨id, rfl, fun _ => .same rfl rfl⟩

omit [DecidableEq H] in
theorem reparent (p : Option Slot) : Tame kept (Process.reparent p : Code H Unit) :=
  forEach fun pp => bind (readProc ..) fun _ => ite
    (bind (write fun _ => ⟨fun tidy => tidy.update rfl (tidy pp), rfl, fun _ =>
      .update rfl rfl ⟨rfl, rfl, .inl rfl⟩⟩) fun _ =>
      bind (readProc ..) fun _ =>
      ite (bind (read _) fun _ => ite (wakeup _) (pure _)) (pure _)) (pure _)

omit [DecidableEq H] in
theorem exitZombie (p : Option Slot) (status : CInt) :
    Tame kept (Process.exitZombie p status : Code H Unit) := by
  refine bind (note fun _ => by cases p <;> exact ⟨rfl, rfl, rfl⟩) fun _ =>
    bind (acquire _) fun _ =>
    bind (reparent p) fun _ => bind (deref p) fun p => bind (readProc ..) fun _ => ?_
  have die : Tame kept (do
      Process.acquire (.proc p)
      Process.writeProc p fun s => { s with xstate := status, state := .zombie }
      Process.release .wait : Code H Unit) :=
    bind (acquire _) fun _ =>
      bind (turn (fun _ => ⟨rfl, rfl, rfl, rfl⟩) (by decide)) fun _ =>
        release _
  exact when (wakeup _) fun _ => die

theorem exitProcess (status : CInt) :
    Tame kept (Process.exitProcess img status : Code H Empty) :=
  bind myproc fun p => bind (read _) fun _ => when (panic _) fun _ =>
    bind (exitZombie p status) fun _ => bind sched fun _ => panic _

omit [DecidableEq H] in
theorem waitScan (p : Option Slot) (status : Bool) (ps : List Slot) (havekids : Bool) :
    Tame false (Process.waitScan img p status ps havekids :
      Code H (Sum (CInt × Option CInt) Bool)) := by
  induction ps generalizing havekids with
  | nil => exact .done _
  | cons np ps ih =>
    refine bind (readProc ..) fun _ => ite ?_ (ih havekids)
    refine bind (acquire _) fun _ => bind (readProc ..) fun _ => ite ?_
      (bind (release _) fun _ => ih true)
    refine bind (readProc ..) fun _ => bind (readProc ..) fun _ => bind (read _) fun _ =>
      bind (freeProcess ..) fun _ => bind (release _) fun _ => bind (release _) fun _ =>
        bind (note fun _ => by cases p <;> exact ⟨rfl, rfl, rfl⟩) fun _ => pure _

/-- The rest of a round of `wait_process` that has found no zombie. -/
theorem noZombie (p : Option Slot) (status havekids : Bool) : Tame kept (do
    let killed ← if havekids then do
        let p ← Process.deref p
        Pure.pure (decide ((← Process.readProc p (·.killed)) ≠ 0))
      else Pure.pure false
    if !havekids || killed then
      Process.write fun k => setPhase p .out (match p with
        | none => k
        | some p => k.record (.childless (k.shadow p).serial (k.children p)))
      Process.release .wait
      return (-1, none)
    else
      Process.write (setPhase p .armed)
      Process.sleep img (p.map .proc) (some .wait)
      Process.write (setPhase p .scanning)
      .perform (.waitLoop p status) : Code H (CInt × Option CInt)) := by
  have decided : ∀ (last : Kernel → Kernel) (killed : Bool),
      (∀ k, (last k).proc = k.proc ∧ (last k).output = k.output ∧
        (last k).memory = k.memory) →
      Tame kept (if !havekids || killed then do
      Process.write last
      Process.release .wait
      return (-1, none)
    else do
      Process.write (setPhase p .armed)
      Process.sleep img (p.map .proc) (some .wait)
      Process.write (setPhase p .scanning)
      .perform (.waitLoop p status) : Code H (CInt × Option CInt)) := by
    refine fun _ killed hlast => ite ?_ ?_
    · exact bind (note hlast) fun _ => bind (release _) fun _ => pure _
    · exact bind (note fun _ => by cases p <;> exact ⟨rfl, rfl, rfl⟩) fun _ =>
        bind (sleep _ _) fun _ =>
        bind (note fun _ => by cases p <;> exact ⟨rfl, rfl, rfl⟩) fun _ => perform id
  refine ite (bind (deref p) fun _ => bind (readProc ..) fun _ => decided _ _ ?_) (decided _ _ ?_)
  all_goals
    intro k
    cases p <;> exact ⟨rfl, rfl, rfl⟩

theorem waitBody (p : Option Slot) (status : Bool) :
    Tame false (Process.waitBody img p status : Code H (CInt × Option CInt)) := by
  refine bind (waitScan ..) fun found => ?_
  cases found with
  | inl result => exact pure _
  | inr havekids => exact noZombie p status havekids

omit [DecidableEq H] in
theorem waitProcess (status : Bool) :
    Tame kept (Process.waitProcess status : Code H (CInt × Option CInt)) :=
  bind myproc fun p => bind (acquire _) fun _ =>
    bind (note fun _ => by cases p <;> exact ⟨rfl, rfl, rfl⟩)
    fun _ => perform id

omit [DecidableEq H] in
theorem forkret : Tame kept (Process.forkret : Code H Empty) := by
  have start : ∀ p, Tame kept (do
      if (← Process.readProc p (·.context.s0)) ≠ 0 then
        let fn ← act fun _ w =>
          ((w.kernel.proc p).context.s0,
            { w with kernel := w.kernel.setShadow p fun s => { s with window := false } })
        .perform (.enter fn)
        Process.panic "kernel thread returned"
      Process.printf "forkret: no kernel task and userret not implemented\n"
      Process.panic "forkret" : Code H Empty) := fun p =>
    bind (readProc ..) fun _ => ite
      (bind (still fun _ _ => ⟨rfl, rfl, rfl⟩) fun _ => bind (perform id) fun _ =>
        bind (panic _) fun _ =>
        bind (printf _) fun _ => panic _)
      (bind (printf _) fun _ => panic _)
  exact bind myproc fun _ => bind (deref _) fun p =>
    bind (still fun _ _ => ⟨rfl, rfl, rfl⟩) fun _ =>
    bind (release _) fun _ => bind (read _) fun _ =>
      ite (bind (note fun _ => ⟨rfl, rfl, rfl⟩) fun _ => bind (printf _) fun _ => start p) (start p)

/-! ## Traps -/

omit [DecidableEq H] in
theorem timerInterrupt : Tame kept (Process.timerInterrupt : Code H Unit) :=
  bind (note fun _ => ⟨rfl, rfl, rfl⟩) fun _ => bind (acquire _) fun _ => bind (wakeup _) fun _ =>
    bind (release _) fun _ => bind (read _) fun _ => printf _

omit [DecidableEq H] in
theorem devintr : Tame kept (Process.devintr : Code H CInt) := by
  refine bind (still fun _ _ => ⟨rfl, rfl, rfl⟩) fun scause => ite ?_ (ite ?_ (pure _))
  · exact bind choose fun irq => ite (bind choose fun _ => pure _)
      (ite (bind (panic _) fun _ => pure _) (ite (bind (printf _) fun _ => pure _) (pure _)))
  · exact bind timerInterrupt fun _ => pure _

omit [DecidableEq H] in
theorem reportTrap (scause : Word) : Tame kept (Process.reportTrap scause : Code H Unit) :=
  bind (still fun _ _ => ⟨rfl, rfl, rfl⟩) fun _ => bind choose fun _ => printf _

theorem kernelvec : Tame kept (Process.kernelvec img : Code H Unit) := by
  have restore : ∀ sepc sstatus, Tame kept (do
      writeCsr fun c => { c with sepc }
      writeCsr fun c => { c with sstatus } : Code H Unit) := fun sepc sstatus =>
    bind (still fun _ _ => ⟨rfl, rfl, rfl⟩) fun _ => still fun _ _ => ⟨rfl, rfl, rfl⟩
  have finish : ∀ (sepc : Word) (sstatus : Sstatus) (whichDev : CInt), Tame kept (do
      if whichDev = 2 then
        if (← Process.myproc).isSome then
          Process.yield img
      writeCsr fun c => { c with sepc }
      writeCsr fun c => { c with sstatus } : Code H Unit) := fun sepc sstatus whichDev =>
    ite (bind myproc fun _ => when yield fun _ => restore sepc sstatus) (restore sepc sstatus)
  have trapped : Tame kept (Process.kerneltrap img : Code H Unit) := by
    refine bind (still fun _ _ => ⟨rfl, rfl, rfl⟩) fun sepc =>
      bind (still fun _ _ => ⟨rfl, rfl, rfl⟩) fun sstatus =>
      bind (still fun _ _ => ⟨rfl, rfl, rfl⟩) fun scause => when (panic _) fun _ =>
        bind (still fun _ _ => ⟨rfl, rfl, rfl⟩) fun _ => when (panic _) fun _ => ite ?_ (ite ?_ ?_)
    · exact bind devintr fun _ => ite (bind (reportTrap _) fun _ => bind (panic _) fun _ =>
        finish sepc sstatus _) (finish sepc sstatus _)
    · exact bind (panic _) (finish sepc sstatus)
    · exact ite (bind (panic _) (finish sepc sstatus)) (ite (bind (panic _) (finish sepc sstatus))
        (bind (reportTrap _) fun _ => bind (panic _) (finish sepc sstatus)))
  exact bind trapped fun _ => still fun _ _ => ⟨rfl, rfl, rfl⟩

/-! ## Entry functions and main.c -/

theorem running (f : Shadow → Shadow) (sie : Bool) :
    Tame kept (act fun h w => ((), (w.setSie h sie).running h f) : Code H Unit) :=
  still fun h w => by
    unfold World.running
    cases (w.setSie h sie).cur h <;> exact ⟨rfl, rfl, rfl⟩

theorem takeAction (held : List Lock) (action : Action)
    (hkept : kept = true → ∀ entrypoint, action ≠ .createProcess entrypoint) :
    Tame kept (Process.takeAction img held action : Code H (List Lock)) := by
  cases action with
  | compute => exact pure _
  | acquire lk => exact ite (pure _) (bind (acquire _) fun _ => pure _)
  | release lk => exact ite (bind (release _) fun _ => pure _) (pure _)
  | wakeup chan => exact ite (pure _) (bind (wakeup _) fun _ => pure _)
  | sleep chan lk => exact ite (bind (sleep _ _) fun _ => pure _) (pure _)
  | createProcess entrypoint =>
    cases kept with
    | true => exact absurd rfl (hkept rfl entrypoint)
    | false => exact ite (bind (createProcess _) fun _ => pure _) (pure _)
  | exitProcess status => exact ite (bind (exitProcess _) fun never => never.elim) (pure _)
  | waitProcess status => exact ite (bind (waitProcess _) fun _ => pure _) (pure _)
  | yield => exact ite (bind yield fun _ => pure _) (pure _)
  | printf text => exact ite (bind (printf _) fun _ => pure _) (pure _)
  | intrOn => exact ite (bind (running _ true) fun _ => pure _) (pure _)
  | intrOff => exact ite (bind (running _ false) fun _ => pure _) (pure _)

theorem clientBody (held : List Lock) :
    Tame false (Process.clientBody img held : Code H Empty) := by
  have next : Tame false (do
      let action ← Process.choose Action
      let held' ← Process.takeAction img held action
      .perform (.client held') : Code H Empty) :=
    bind choose fun action => bind (takeAction held action nofun) fun _ => perform id
  exact ite (bind (perform id) fun _ => next) next

theorem initLoopBody : Tame kept (Process.initLoopBody img : Code H Empty) :=
  bind (waitProcess true) fun _ => bind (perform id) fun _ => ite
    (bind (printf _) fun _ => bind (perform id) fun _ => perform id)
    (bind yield fun _ => bind (perform id) fun _ => perform id)

omit [DecidableEq H] in
theorem enterBody (fn : Word) : Tame kept (Process.enterBody img fn : Code H Unit) := by
  have start : Tame kept (initTask : Code H Empty) :=
    bind (perform id) fun _ => bind (printf _) fun _ => bind (perform id) fun _ =>
      perform id
  exact ite (bind start fun never => never.elim)
    (ite (bind (perform id) fun never => never.elim) (panic _))

theorem main (entries : List Word) : Tame false (Process.main img entries : Code H Empty) :=
  bind userinit fun _ => bind (forEach fun _ => bind (createProcess _) fun _ => pure _) fun _ =>
    scheduler

end Tame

/-! ## All that runs -/

section Machine

variable [DecidableEq H] {img : Image} {quiet kept : Bool}

/-- No process is created or reaped by the body of the instruction itself. -/
def Instr.Settled : Instr H β → Prop
  | .client _ | .waitLoop .. => False
  | _ => True

theorem tame_body {i : Instr H β} {body : Code H β} (hi : kept = true → i.Settled)
    (hbody : (platform img quiet : Platform _ H _ _).effect i = .call body) :
    Tame kept body := by
  cases i with
  | act f | choose | panic message | swtch old new regs => cases hbody
  | diverge => cases hbody; exact .perform id
  | acquire lk => cases hbody; exact .acquireBody lk
  | release lk => cases hbody; exact .releaseBody lk
  | spin lk => cases hbody; exact .spinBody lk
  | myproc => cases hbody; exact .myprocBody
  | waitLoop p status =>
    cases kept with
    | true => exact (hi rfl).elim
    | false => cases hbody; exact .waitBody p status
  | scheduling => cases hbody; exact .schedulingBody
  | initLoop => cases hbody; exact .initLoopBody
  | client held =>
    cases kept with
    | true => exact (hi rfl).elim
    | false => cases hbody; exact .clientBody held
  | enter fn => cases hbody; exact .enterBody fn
  | atEntry | wfi => cases hbody; exact .pure _

theorem tame_fresh {c : Ctx H} {w : World H} {program : Code H Empty}
    (hfresh : (platform img quiet).fresh c w = some program) : Tame kept program := by
  cases c with
  | cpu g => cases hfresh
  | proc p =>
    have hstart : program = forkret := by
      change (if _ then some forkret else none) = some program at hfresh
      split at hfresh
      · exact (Option.some.inj hfresh).symm
      · cases hfresh
    rw [hstart]
    exact .forkret

/-! ## The process table in every run -/

theorem transfer_tidy {old new : Ctx H} {regs : Context} {h : H} {w : World H}
    (tidy : w.Tidy) : (transfer old new regs h w).Tidy := by
  cases old with
  | cpu c => exact tidy
  | proc p => exact Kernel.Tidy.update tidy rfl (tidy p)

theorem Tame.tidies {code : Code H α} (tame : Tame kept code) :
    (platform img quiet : Platform (Instr H) H (Ctx H) (World H)).KeepsAll World.Tidy code := by
  induction tame with
  | done value => exact trivial
  | access hf _ ih => exact ⟨fun h w tidy => (hf h w).tidy tidy, ih⟩
  | @other _ i next hi _ ih =>
    refine ⟨?_, ih⟩
    cases i with
    | act f => exact absurd trivial hi
    | swtch old new regs => exact fun h w => transfer_tidy
    | _ => exact trivial
  | print text _ ih =>
    refine .bind (.bind (.perform fun h w tidy => tidy) fun call => .bind (.perform trivial)
      fun _ => .bind (.forEach fun c => ?_) fun _ => .perform trivial) ih
    exact .perform fun h w tidy => tidy

theorem tidy_all (img : Image) (quiet : Bool) :
    (platform img quiet : Platform (Instr H) H (Ctx H) (World H)).Safe World.Tidy where
  call hbody := Tame.tidies (tame_body nofun hbody : Tame false _)
  trap {h w w'} htrap tidy := by
    obtain ⟨-, -, pc, rfl⟩ := htrap
    exact tidy
  handler := Tame.tidies (.kernelvec : Tame false _)
  fresh hfresh := Tame.tidies (tame_fresh hfresh : Tame false _)

theorem tidy_afterProcinit (memory : Memory) : (afterProcinit memory).Tidy :=
  fun _ => ⟨rfl, fun _ => ⟨rfl, rfl, rfl, rfl⟩⟩

theorem tidy_boot {hart : H} {entries : List Word} {memory : Memory}
    {m : Config (Instr H) H (Ctx H) (World H)}
    (hrun : Reachable (platform img quiet) (boot img hart entries memory) m) :
    m.world.kernel.Tidy := by
  have first : Keeping (platform img quiet) World.Tidy (boot img hart entries memory) := by
    refine ⟨tidy_afterProcinit memory, fun h => ?_, fun _ => Tame.tidies (.panic _ : Tame false _)⟩
    have hcode : Tame false (if h = hart then main img entries else scheduler : Code H Empty) :=
      .ite (.main entries) .scheduler
    exact hcode.tidies
  exact (first.reachable (tidy_all img quiet) hrun).world

end Machine

end Xv6Kernel.Process
