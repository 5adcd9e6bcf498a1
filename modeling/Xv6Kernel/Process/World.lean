import Xv6Kernel.Mm.Allocator

/-!
# The state of the running kernel

`struct proc`, `struct cpu`, the spinlocks and the supervisor registers, for
harts of any type `H`.  Beside the data of the source stand history variables
(`Shadow`, `born`, `booted`, `log`, `calls`, `senders`, `sending`); they are written next
to the statements they describe and no branch of the kernel reads them.
-/

namespace Xv6Kernel.Process

open Xv6Kernel.Foundation Xv6Kernel.Mm

/-! ## Processes -/

/-- `int` and `uint`. -/
abbrev CInt := BitVec 32

inductive ProcState where
  | unused
  | used
  | sleeping
  | runnable
  | running
  | zombie
  deriving DecidableEq, Repr

/-- `struct context`. -/
structure Context where
  ra : Word
  sp : Word
  s0 : Word
  s1 : Word
  s2 : Word
  s3 : Word
  s4 : Word
  s5 : Word
  s6 : Word
  s7 : Word
  s8 : Word
  s9 : Word
  s10 : Word
  s11 : Word
  deriving DecidableEq

def Context.zero : Context := ⟨0, 0, 0, 0, 0, 0, 0, 0, 0, 0, 0, 0, 0, 0⟩

/-- What a non-null `void *chan` points to. -/
inductive Chan where
  | proc (p : Slot)
  | ticks
  | other (address : Nat)
  deriving DecidableEq

/-- `struct proc`; null pointers are `none`, and its lock is `Lock.proc`. -/
structure Proc where
  state : ProcState
  chan : Option Chan
  killed : CInt
  xstate : CInt
  pid : CInt
  parent : Option Slot
  kstack : Word
  sz : Word
  pagetable : Word
  trapframe : Word
  context : Context
  name0 : BitVec 8

/-! ## History variables -/

/-- Where a process stands in `wait_process` and `exit_process`. -/
inductive Phase where
  | out
  /-- In `wait_process`, awake and holding `wait_lock` or about to take it. -/
  | scanning
  /-- Decided to sleep for a child, and not woken since. -/
  | armed
  | woken
  /-- Has freed the zombie `child` and returns its `status`. -/
  | reaped (child : Nat) (status : CInt)
  | exiting (status : CInt)
  deriving DecidableEq

structure Shadow where
  /-- The number of the pid the occupant got, counted from 1. -/
  serial : Nat
  creator : Option Nat
  /-- The function the occupant was created with. -/
  entry : Word
  phase : Phase
  /-- Between the release and the last read of `s0` in `forkret`. -/
  window : Bool
  /-- `intena` of the hart at the first dispatch. -/
  startedOn : Bool
  calledOn : Bool
  calledOff : Bool

/-- Processes are named by serial. -/
inductive Event where
  /-- The child became runnable. -/
  | forked (creator : Option Nat) (child : Nat)
  /-- `create_process` returned `pid`. -/
  | created (creator : Option Nat) (child : Nat) (pid : CInt)
  /-- `exit_process(status)` was called. -/
  | exited (who : Nat) (pid status : CInt)
  /-- `wait_process` returned `pid` and stored `stored`. -/
  | waited (who child : Nat) (pid : CInt) (stored : Option CInt)
  /-- `wait_process` returned -1 while `children` had the caller as parent. -/
  | childless (who : Nat) (children : List Slot)
  deriving DecidableEq

structure Kernel where
  proc : Slot → Proc
  nextpid : CInt
  initproc : Option Slot
  ticks : CInt
  /-- `first` of `forkret`. -/
  first : Bool
  /-- The bytes sent to the UART, last one first. -/
  console : List Char
  memory : Memory
  shadow : Slot → Shadow
  /-- How many pids `allocpid` has handed out. -/
  born : Nat
  /-- `userinit` has made the first process runnable. -/
  booted : Bool
  log : List Event
  /-- How many calls of `printf` and `uart_puts` have begun. -/
  calls : Nat
  /-- The call that has sent each byte of `console`. -/
  senders : List Nat
  /-- A `uart_puts` has sent some of its bytes and not all. -/
  sending : Bool

namespace Kernel

def setProc (k : Kernel) (p : Slot) (f : Proc → Proc) : Kernel :=
  { k with proc := Function.update k.proc p (f (k.proc p)) }

def setShadow (k : Kernel) (p : Slot) (f : Shadow → Shadow) : Kernel :=
  { k with shadow := Function.update k.shadow p (f (k.shadow p)) }

def record (k : Kernel) (event : Event) : Kernel :=
  { k with log := event :: k.log }

end Kernel

/-! ## Locks, harts and contexts -/

inductive Lock where
  | wait
  | pid
  | ticks
  | print
  | kmem
  | proc (p : Slot)
  /-- A lock that entry functions share. -/
  | user (n : Nat)
  deriving DecidableEq

/-- `struct spinlock`; a non-zero `locked` also tells which hart set it. -/
structure SpinLock (H : Type) where
  locked : Option H
  cpu : Option H

/-- `struct cpu`. -/
structure Cpu where
  proc : Option Slot
  context : Context
  noff : Int
  intena : Bool

structure Sstatus where
  sie : Bool
  spie : Bool
  spp : Bool
  deriving DecidableEq

structure Csr where
  sstatus : Sstatus
  sepc : Word
  scause : Word

/-- The stack a hart executes on: a process's kernel stack or the boot stack on
which a hart runs its scheduler. -/
inductive Ctx (H : Type) where
  | proc (p : Slot)
  | cpu (h : H)
  deriving DecidableEq

/-- The process whose stack it is. -/
def Ctx.slot {H : Type} : Ctx H → Option Slot
  | .proc p => some p
  | .cpu _ => none

structure World (H : Type) where
  kernel : Kernel
  lock : Lock → SpinLock H
  cpus : H → Cpu
  csr : H → Csr
  cur : H → Ctx H

namespace World

variable {H : Type} [DecidableEq H]

def setLock (w : World H) (lk : Lock) (f : SpinLock H → SpinLock H) : World H :=
  { w with lock := Function.update w.lock lk (f (w.lock lk)) }

def setCpu (w : World H) (h : H) (f : Cpu → Cpu) : World H :=
  { w with cpus := Function.update w.cpus h (f (w.cpus h)) }

def setCsr (w : World H) (h : H) (f : Csr → Csr) : World H :=
  { w with csr := Function.update w.csr h (f (w.csr h)) }

def setSie (w : World H) (h : H) (sie : Bool) : World H :=
  w.setCsr h fun c => { c with sstatus := { c.sstatus with sie := sie } }

end World

end Xv6Kernel.Process
