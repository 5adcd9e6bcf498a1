import Xv6Kernel.Foundation.Interleaving
import Xv6Kernel.Process.World

/-!
# Instructions, spinlocks and `printf`

An instruction is one access to what other harts, or a trap, could see change:
a register, a lock word, a variable.  Assignments to a slot whose lock is held,
with no call between them, are one access.  Loops without an exit and the
functions with a contract of their own are instructions that call a body.
-/

namespace Xv6Kernel.Process

open Xv6Kernel.Foundation Xv6Kernel.Mm

inductive Instr (H : Type) : Type → Type 1 where
  | act {β : Type} (f : H → World H → β × World H) : Instr H β
  | choose (β : Type) : Instr H β
  | panic {β : Type} (message : String) : Instr H β
  | diverge {β : Type} : Instr H β
  | swtch (old new : Ctx H) (regs : Context) : Instr H Unit
  | acquire (lk : Lock) : Instr H Unit
  | release (lk : Lock) : Instr H Unit
  /-- The loop of `acquire`. -/
  | spin (lk : Lock) : Instr H Unit
  | myproc : Instr H (Option Slot)
  /-- The loop of `wait_process`. -/
  | waitLoop (p : Option Slot) (status : Bool) : Instr H (CInt × Option CInt)
  /-- The loop of `scheduler`. -/
  | scheduling : Instr H Empty
  /-- The loop of `init_task`. -/
  | initLoop : Instr H Empty
  /-- An entry function of which nothing is known but the locks it holds. -/
  | client (held : List Lock) : Instr H Empty
  /-- The call `fn()` in `forkret`. -/
  | enter (fn : Word) : Instr H Unit
  /-- A point of an entry function between two of its statements. -/
  | atEntry : Instr H Unit
  /-- The instruction `wfi`, which only waits. -/
  | wfi : Instr H Unit

abbrev Code (H : Type) := Program (Instr H)

variable {H : Type}

/-! ## Accesses -/

def act {β : Type} (f : H → World H → β × World H) : Code H β :=
  .perform (.act f)

def choose (β : Type) : Code H β := .perform (.choose β)

def panic {β : Type} (message : String) : Code H β := .perform (.panic message)

def read {β : Type} (f : Kernel → β) : Code H β :=
  act fun _ w => (f w.kernel, w)

def write (f : Kernel → Kernel) : Code H Unit :=
  act fun _ w => ((), { w with kernel := f w.kernel })

def readProc {β : Type} (p : Slot) (f : Proc → β) : Code H β :=
  read fun k => f (k.proc p)

def writeProc (p : Slot) (f : Proc → Proc) : Code H Unit :=
  write fun k => k.setProc p f

/-- A dereference of a null pointer ends in the handler of page faults. -/
def deref {β : Type} (pointer : Option β) : Code H β :=
  match pointer with
  | some target => pure target
  | none => panic "kerneltrap: load page fault"

section Hart

variable [DecidableEq H]

def mycpu : Code H H := act fun h w => (h, w)

def readCpu {β : Type} (f : Cpu → β) : Code H β :=
  act fun h w => (f (w.cpus h), w)

def writeCpu (f : Cpu → Cpu) : Code H Unit :=
  act fun h w => ((), w.setCpu h f)

def readLock {β : Type} (lk : Lock) (f : SpinLock H → β) : Code H β :=
  act fun _ w => (f (w.lock lk), w)

def intrGet : Code H Bool := act fun h w => ((w.csr h).sstatus.sie, w)
def intrOn : Code H Unit := act fun h w => ((), w.setSie h true)
def intrOff : Code H Unit := act fun h w => ((), w.setSie h false)

/-! ## spinlock.c -/

def pushOff : Code H Unit := do
  let old ← intrGet
  intrOff
  if (← readCpu (·.noff)) = 0 then
    writeCpu fun c => { c with intena := old }
  writeCpu fun c => { c with noff := c.noff + 1 }

def popOff : Code H Unit := do
  if ← intrGet then
    panic "pop_off - interruptible"
  if (← readCpu (·.noff)) < 1 then
    panic "pop_off"
  writeCpu fun c => { c with noff := c.noff - 1 }
  if (← readCpu (·.noff)) = 0 then
    if ← readCpu (·.intena) then
      intrOn

def holding (lk : Lock) : Code H Bool := do
  if (← readLock lk (·.locked)).isSome then
    let c ← mycpu
    return (← readLock lk (·.cpu)) = some c
  else
    return false

/-- `__sync_lock_test_and_set(&lk->locked, 1)`; true when it was set already. -/
def testAndSet (lk : Lock) : Code H Bool :=
  act fun h w =>
    match (w.lock lk).locked with
    | some _ => (true, w)
    | none => (false, w.setLock lk fun l => { l with locked := some h })

def spinBody (lk : Lock) : Code H Unit := do
  if ← testAndSet lk then
    .perform (.spin lk)

def acquireBody (lk : Lock) : Code H Unit := do
  pushOff
  if ← holding lk then
    panic "acquire"
  .perform (.spin lk)
  act fun h w => ((), w.setLock lk fun l => { l with cpu := some h })

def releaseBody (lk : Lock) : Code H Unit := do
  if !(← holding lk) then
    panic "release"
  act fun _ w => ((), w.setLock lk fun l => { l with cpu := none })
  act fun _ w => ((), w.setLock lk fun l => { l with locked := none })
  popOff

def myprocBody : Code H (Option Slot) := do
  pushOff
  let p ← readCpu (·.proc)
  popOff
  return p

end Hart

def acquire (lk : Lock) : Code H Unit := .perform (.acquire lk)
def release (lk : Lock) : Code H Unit := .perform (.release lk)
def myproc : Code H (Option Slot) := .perform .myproc

/-! ## Memory programs -/

/-- A program of `kernel/mm` run by a hart; what it does under `kmem.lock` is
bracketed by `acquire` and `release`. -/
def liftMem {α : Type} : MemM α → Code H α
  | .done value => .done value
  | .step (.touch f) next => do
      let answer ← act fun _ w =>
        ((f w.kernel.memory).1,
          { w with kernel := { w.kernel with memory := (f w.kernel.memory).2 } })
      liftMem (next answer)
  | .step (.critical f) next => do
      acquire .kmem
      let answer ← act fun _ w =>
        ((f w.kernel.memory).1,
          { w with kernel := { w.kernel with memory := (f w.kernel.memory).2 } })
      release .kmem
      liftMem (next answer)
  | .step (.panic message) _ => panic message
  | .step .diverge _ => .perform .diverge

/-! ## printf.c and console.c -/

/-- A call that prints gets its number, for the history only. -/
def beginCall : Code H Nat :=
  act fun _ w => (w.kernel.calls,
    { w with kernel := { w.kernel with calls := w.kernel.calls + 1 } })

/-- `consputc` for a character other than the backspace code. -/
def consputc (call : Nat) (c : Char) : Code H Unit :=
  write fun k => { k with console := c :: k.console, senders := call :: k.senders }

/-- `printf` with its arguments already put into the text. -/
def printf (text : String) : Code H Unit := do
  let call ← beginCall
  acquire .print
  Program.forEach text.toList (consputc call)
  release .print

/-- `%d`. -/
def decimal (n : CInt) : String := toString n.toInt

/-- `%lx`. -/
def hexadecimal (n : Word) : String := String.ofList (Nat.toDigits 16 n.toNat)

end Xv6Kernel.Process
