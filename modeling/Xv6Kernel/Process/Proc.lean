import Xv6Kernel.Process.Spinlock
import Xv6Kernel.Mm.PageTable

/-!
# Processes and the scheduler

`proc.c`, function by function.  Statements on history variables are the calls
of `setShadow` and `record`, inside the access they go with.
-/

namespace Xv6Kernel.Process

open Xv6Kernel.Foundation Xv6Kernel.Mm

variable {H : Type}

/-- The process table in the order the loops go through it. -/
def slots : List Slot := List.finRange nproc

/-! ## Page tables of processes -/

def procPagetable (img : Image) : MemM Word := do
  let pagetable ← createPagetable
  if pagetable = 0 then
    return 0
  if (← mapPage pagetable trampolineVa img.trampoline (pteR ||| pteX)) < 0 then
    destroyPagetable img pagetable
    return 0
  if (← mapPage pagetable trapframeVa pgSize (pteR ||| pteW)) < 0 then
    unmapPage pagetable trampolineVa
    destroyPagetable img pagetable
    return 0
  return pagetable

/-- `sz` is not used, as in the source. -/
def procFreepagetable (img : Image) (pagetable _sz : Word) : MemM Unit := do
  unmapPage pagetable trampolineVa
  unmapPage pagetable trapframeVa
  destroyPagetable img pagetable

/-! ## Slots -/

/-- The fields `free_process` clears after the pages are gone. -/
def Proc.cleared (p : Proc) : Proc :=
  { p with
    sz := 0, pid := 0, parent := none, name0 := 0, chan := none, killed := 0,
    xstate := 0, state := .unused, pagetable := 0 }

/-- The last assignments of `free_process`; `reaper` is the process that frees a zombie child,
for the history only. -/
def Kernel.cleared (p : Slot) (reaper : Option Slot) (k : Kernel) : Kernel :=
  let k' := (k.setProc p Proc.cleared).setShadow p fun s => { s with phase := .out }
  match reaper with
  | none => k'
  | some r => k'.setShadow r fun s =>
      { s with phase := .reaped (k.shadow p).serial (k.proc p).xstate }

def freeProcess (img : Image) (p : Slot) (reaper : Option Slot) : Code H Unit := do
  let trapframe ← readProc p (·.trapframe)
  if trapframe ≠ 0 then
    liftMem (freePage img trapframe)
  writeProc p fun s => { s with trapframe := 0 }
  let pagetable ← readProc p (·.pagetable)
  if pagetable ≠ 0 then
    liftMem (procFreepagetable img pagetable (← readProc p (·.sz)))
  write (Kernel.cleared p reaper)

/-- `p` is the slot the pid is for, for the history only. -/
def allocpid (p : Slot) : Code H CInt := do
  acquire .pid
  let pid ← read (·.nextpid)
  write fun k =>
    { (k.setShadow p fun s => { s with serial := k.born + 1 }) with
      nextpid := k.nextpid + 1, born := k.born + 1 }
  release .pid
  return pid

/-- The search of `alloc_process`; it answers with the lock of the slot held. -/
def allocScan : List Slot → Code H (Option Slot)
  | [] => return none
  | p :: rest => do
      acquire (.proc p)
      if (← readProc p (·.state)) = .unused then
        return some p
      else
        release (.proc p)
        allocScan rest

/-- `alloc_process` from the label `found` on. -/
def allocFound (img : Image) (p : Slot) : Code H (Option Slot) := do
  let pid ← allocpid p
  writeProc p fun s => { s with pid := pid, state := .used }
  printf ("alloc_process: allocated process " ++ decimal pid ++ "\n")
  let trapframe ← liftMem allocPage
  writeProc p fun s => { s with trapframe := trapframe }
  if trapframe = 0 then
    freeProcess img p none
    release (.proc p)
    return none
  let pagetable ← liftMem (procPagetable img)
  writeProc p fun s => { s with pagetable := pagetable }
  if pagetable = 0 then
    freeProcess img p none
    release (.proc p)
    return none
  writeProc p fun s =>
    { s with context :=
        { Context.zero with ra := img.forkret, sp := s.kstack + pgSize } }
  return some p

def allocProcess (img : Image) : Code H (Option Slot) := do
  match ← allocScan slots with
  | none => return none
  | some p => allocFound img p

/-- The history of a slot whose process is made runnable. -/
def Kernel.fork (k : Kernel) (p : Slot) (creator : Option Slot) (entry : Word) :
    Kernel :=
  let creator := creator.map fun c => (k.shadow c).serial
  (k.setShadow p fun s =>
    { s with
      creator, entry, phase := .out, window := false, startedOn := false,
      calledOn := false, calledOff := false }).record
    (.forked creator (k.shadow p).serial)

def Kernel.recordCreated (k : Kernel) (p : Slot) (creator : Option Slot) (child : Nat) :
    Kernel :=
  k.record (.created (creator.map fun c => (k.shadow c).serial) child (k.proc p).pid)

/-- `create_process` after `alloc_process` has answered `p`. -/
def createWith (p : Slot) (entrypoint : Word) : Code H CInt := do
  let currP ← myproc
  if currP.isSome then
    acquire .wait
    writeProc p fun s => { s with parent := currP }
    release .wait
  -- which process it is, for the history only
  let child ← read fun k => (k.shadow p).serial
  write fun k =>
    (k.setProc p fun s =>
      { s with context := { s.context with s0 := entrypoint }, state := .runnable }).fork
      p currP entrypoint
  release (.proc p)
  act fun _ w =>
    ((w.kernel.proc p).pid, { w with kernel := w.kernel.recordCreated p currP child })

def createProcess (img : Image) (entrypoint : Word) : Code H CInt := do
  match ← allocProcess img with
  | none => panic "create_process: alloc_process failed"
  | some p => createWith p entrypoint

/-- Creates the first process; only `main` calls it. -/
def userinit (img : Image) : Code H Unit := do
  let p ← allocProcess img
  write fun k => { k with initproc := p }
  match p with
  | none => panic "kerneltrap: store/AMO page fault"
  | some p =>
      write fun k =>
        { (k.setProc p fun s =>
            { s with
              context := { s.context with s0 := img.initTask, ra := img.forkret }
              state := .runnable }).fork p none img.initTask with
          booted := true }
      release (.proc p)
      let pid ← readProc p (·.pid)
      printf ("userinit: created init process pid " ++ decimal pid ++ "\n")

section Switch

variable [DecidableEq H]

/-! ## Switching -/

/-- The registers of a process inside `sched`, where `ra` points behind the call
of `swtch` and `s0` is the frame pointer. -/
def InSched (img : Image) (p : Slot) (regs : Context) : Prop :=
  regs.ra ≠ img.forkret ∧ (kstackVa p).toNat < regs.s0.toNat ∧
    regs.s0.toNat ≤ (kstackVa p).toNat + 4096

/-- `swtch(&p->context, &mycpu()->context)`. -/
def swtchToCpu (img : Image) (p : Slot) : Code H Unit := do
  let c ← mycpu
  let regs ← choose { regs : Context // InSched img p regs }
  .perform (.swtch (.proc p) (.cpu c) regs.val)

/-- `swtch(&c->context, &p->context)`. -/
def swtchToProc (p : Slot) : Code H Unit := do
  let c ← mycpu
  let regs ← choose Context
  .perform (.swtch (.cpu c) (.proc p) regs)

def sched (img : Image) : Code H Unit := do
  let p ← deref (← myproc)
  if !(← holding (.proc p)) then
    panic "sched p->lock"
  if (← readCpu (·.noff)) ≠ 1 then
    panic "sched locks"
  if (← readProc p (·.state)) = .running then
    panic "sched RUNNING"
  if ← intrGet then
    panic "sched interruptible"
  let intena ← readCpu (·.intena)
  swtchToCpu img p
  writeCpu fun c => { c with intena }

/-- One pass of `scheduler` over the process table; the answer is `found`. -/
def schedScan : List Slot → Bool → Code H Bool
  | [], found => return found
  | p :: rest, found => do
      acquire (.proc p)
      if (← readProc p (·.state)) = .runnable then
        act fun h w =>
          ((), { w.setCpu h (fun c => { c with proc := some p }) with
            kernel := w.kernel.setProc p fun s => { s with state := .running } })
        swtchToProc p
        writeCpu fun c => { c with proc := none }
        release (.proc p)
        schedScan rest true
      else
        release (.proc p)
        schedScan rest found

/-- One round of the loop of `scheduler`. -/
def schedulingBody : Code H Empty := do
  intrOn
  intrOff
  let found ← schedScan slots false
  if !found then
    .perform .wfi
  .perform .scheduling

def scheduler : Code H Empty := do
  writeCpu fun c => { c with proc := none }
  .perform .scheduling

def yield (img : Image) : Code H Unit := do
  let p ← deref (← myproc)
  acquire (.proc p)
  writeProc p fun s => { s with state := .runnable }
  sched img
  release (.proc p)

/-! ## Sleep and wakeup -/

def sleep (img : Image) (chan : Option Chan) (lk : Option Lock) : Code H Unit := do
  match ← myproc, lk with
  | none, _ => panic "sleep"
  | some _, none => panic "sleep without lk"
  | some p, some lk =>
      if lk ≠ .proc p then
        acquire (.proc p)
        release lk
      writeProc p fun s => { s with chan, state := .sleeping }
      sched img
      writeProc p fun s => { s with chan := none }
      if lk ≠ .proc p then
        release (.proc p)
        acquire lk

/-- The body of the loop of `wakeup` for a slot whose lock is held. -/
def Kernel.wake (chan : Option Chan) (p : Slot) (k : Kernel) : Kernel :=
  if (k.proc p).state = .sleeping ∧ (k.proc p).chan = chan then
    (k.setProc p fun s => { s with state := .runnable }).setShadow p fun s =>
      { s with phase := if s.phase = .armed then .woken else s.phase }
  else k

def wakeup (chan : Option Chan) : Code H Unit :=
  Program.forEach slots fun p => do
    if some p ≠ (← myproc) then
      acquire (.proc p)
      write (Kernel.wake chan p)
      release (.proc p)

/-! ## Exit and wait -/

/-- The loop of `exit_process` that hands the children to `initproc`. -/
def reparent (p : Option Slot) : Code H Unit :=
  Program.forEach slots fun pp => do
    if (← readProc pp (·.parent)) = p then
      write fun k => k.setProc pp fun s => { s with parent := k.initproc }
      if (← readProc pp (·.state)) = .zombie then
        let initproc ← read (·.initproc)
        if initproc.isSome then
          wakeup (initproc.map .proc)

def Kernel.recordExit (p : Option Slot) (status : CInt) (k : Kernel) : Kernel :=
  match p with
  | none => k
  | some p =>
      (k.setShadow p fun s => { s with phase := .exiting status }).record
        (.exited (k.shadow p).serial (k.proc p).pid status)

/-- `exit_process` up to the call of `sched`. -/
def exitZombie (p : Option Slot) (status : CInt) : Code H Unit := do
  write (Kernel.recordExit p status)
  acquire .wait
  reparent p
  let p ← deref p
  let parent ← readProc p (·.parent)
  if parent.isSome then
    wakeup (parent.map .proc)
  acquire (.proc p)
  writeProc p fun s => { s with xstate := status, state := .zombie }
  release .wait

def exitProcess (img : Image) (status : CInt) : Code H Empty := do
  let p ← myproc
  if p = (← read (·.initproc)) then
    panic "init exiting"
  exitZombie p status
  sched img
  panic "zombie exit"

def setPhase (p : Option Slot) (phase : Phase) (k : Kernel) : Kernel :=
  match p with
  | none => k
  | some p => k.setShadow p fun s => { s with phase }

/-- The scan of `wait_process`: what it returns if a zombie child was found and
freed, or else `havekids`. -/
def waitScan (img : Image) (p : Option Slot) (status : Bool) :
    List Slot → Bool → Code H (Sum (CInt × Option CInt) Bool)
  | [], havekids => return .inr havekids
  | np :: rest, havekids => do
      if (← readProc np (·.parent)) = p then
        acquire (.proc np)
        if (← readProc np (·.state)) = .zombie then
          let pid ← readProc np (·.pid)
          let xstate ← readProc np (·.xstate)
          let stored := if status then some xstate else none
          let child ← read fun k => (k.shadow np).serial
          freeProcess img np p
          release (.proc np)
          release .wait
          write fun k => setPhase p .out (match p with
            | none => k
            | some p => k.record (.waited (k.shadow p).serial child pid stored))
          return .inl (pid, stored)
        else
          release (.proc np)
          waitScan img p status rest true
      else
        waitScan img p status rest havekids

/-- The slots that have `p` as their parent. -/
def Kernel.children (k : Kernel) (p : Slot) : List Slot :=
  slots.filter fun q => (k.proc q).parent = some p

/-- One round of the loop of `wait_process`. -/
def waitBody (img : Image) (p : Option Slot) (status : Bool) :
    Code H (CInt × Option CInt) := do
  match ← waitScan img p status slots false with
  | .inl result => return result
  | .inr havekids =>
      let killed ← if havekids then do
          let p ← deref p
          pure (decide ((← readProc p (·.killed)) ≠ 0))
        else pure false
      if !havekids || killed then
        write fun k => setPhase p .out (match p with
          | none => k
          | some p => k.record (.childless (k.shadow p).serial (k.children p)))
        release .wait
        return (-1, none)
      else
        write (setPhase p .armed)
        sleep img (p.map .proc) (some .wait)
        write (setPhase p .scanning)
        .perform (.waitLoop p status)

/-- `wait_process(&status)`, or `wait_process(0)` when `status` is false; the
second answer is what was stored. -/
def waitProcess (status : Bool) : Code H (CInt × Option CInt) := do
  let p ← myproc
  acquire .wait
  write (setPhase p .scanning)
  .perform (.waitLoop p status)

/-! ## The first run of a process -/

def forkret : Code H Empty := do
  let p ← deref (← myproc)
  act fun h w =>
    ((), { w with kernel := w.kernel.setShadow p fun s =>
      { s with window := true, startedOn := (w.cpus h).intena } })
  release (.proc p)
  if ← read (·.first) then
    write fun k => { k with first := false }
    printf "init: first process started\n"
  if (← readProc p (·.context.s0)) ≠ 0 then
    let fn ← act fun _ w =>
      ((w.kernel.proc p).context.s0,
        { w with kernel := w.kernel.setShadow p fun s => { s with window := false } })
    .perform (.enter fn)
    panic "kernel thread returned"
  printf "forkret: no kernel task and userret not implemented\n"
  panic "forkret"

end Switch

end Xv6Kernel.Process
