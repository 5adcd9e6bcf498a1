import Xv6Kernel.Process.Proc

/-!
# Traps, entry functions and `main`

`trap.c` with `kernelvec.S`, `init_task`, and the programs of which the source
fixes nothing but what they may call: the entry functions of processes.
-/

namespace Xv6Kernel.Process

open Xv6Kernel.Foundation Xv6Kernel.Mm

variable {H : Type} [DecidableEq H]

/-! ## trap.c -/

def timerCause : Word := 0x8000000000000005
def externalCause : Word := 0x8000000000000009

def readCsr {β : Type} (f : Csr → β) : Code H β := act fun h w => (f (w.csr h), w)

def writeCsr (f : Csr → Csr) : Code H Unit := act fun h w => ((), w.setCsr h f)

/-- The next timer interrupt may come at any time, so `w_stimecmp` does nothing
here. -/
def timerInterrupt : Code H Unit := do
  write fun k => { k with ticks := k.ticks + 1 }
  acquire .ticks
  wakeup (some .ticks)
  release .ticks
  let ticks ← read (·.ticks)
  printf ("tick " ++ decimal ticks ++ "\n")

/-- `uart_intr` reads and drops what the UART has received; `plic_claim` answers
with any interrupt number. -/
def devintr : Code H CInt := do
  let scause ← readCsr (·.scause)
  if scause = externalCause then
    let irq ← choose CInt
    if irq = 10 then
      let _ ← choose (List Char)
    else if irq = 1 then
      panic "virtio_disk_intr not implemented in lab 4"
    else if irq ≠ 0 then
      printf ("unexpected interrupt irq=" ++ decimal irq ++ "\n")
    return 1
  else if scause = timerCause then
    timerInterrupt
    return 2
  else
    return 0

/-- What `kerneltrap` prints of a trap that it does not know; `stval` is any word. -/
def reportTrap (scause : Word) : Code H Unit := do
  let sepc ← readCsr (·.sepc)
  let stval ← choose Word
  printf ("scause=0x" ++ hexadecimal scause ++ " sepc=0x" ++ hexadecimal sepc ++
    " stval=0x" ++ hexadecimal stval ++ "\n")

def kerneltrap (img : Image) : Code H Unit := do
  let sepc ← readCsr (·.sepc)
  let sstatus ← readCsr (·.sstatus)
  let scause ← readCsr (·.scause)
  if !sstatus.spp then
    panic "kerneltrap: not from supervisor mode"
  if ← intrGet then
    panic "kerneltrap: interrupts enabled"
  let whichDev ←
    if scause.getLsbD 63 then do
      let whichDev ← devintr
      if whichDev = 0 then
        reportTrap scause
        panic "kerneltrap: unexpected interrupt"
      pure whichDev
    else if scause = 8 then
      panic "kerneltrap: system call from kernel"
    else if scause = 13 then
      panic "kerneltrap: load page fault"
    else if scause = 15 then
      panic "kerneltrap: store/AMO page fault"
    else
      reportTrap scause
      panic "kerneltrap:exception"
  if whichDev = 2 then
    if (← myproc).isSome then
      yield img
  writeCsr fun c => { c with sepc }
  writeCsr fun c => { c with sstatus }

/-- The return from a trap. -/
def sret : Code H Unit :=
  writeCsr fun c =>
    { c with sstatus := { sie := c.sstatus.spie, spie := true, spp := false } }

/-- `kernelvec` saves and restores the registers around the call. -/
def kernelvec (img : Image) : Code H Unit := do
  kerneltrap img
  sret

/-! ## Entry functions -/

/-- What an entry function may do next. -/
inductive Action where
  | compute
  | acquire (lk : Lock)
  | release (lk : Lock)
  | wakeup (chan : Option Chan)
  | sleep (chan : Option Chan) (lk : Lock)
  | createProcess (entrypoint : Word)
  | exitProcess (status : CInt)
  | waitProcess (status : Bool)
  | yield
  | printf (text : String)
  | intrOn
  | intrOff

/-- The slot whose stack the hart is on. -/
def World.running (w : World H) (h : H) (f : Shadow → Shadow) : World H :=
  match w.cur h with
  | .proc p => { w with kernel := w.kernel.setShadow p f }
  | .cpu _ => w

/-- `intr_on()` called by an entry function. -/
def userIntrOn : Code H Unit :=
  act fun h w => ((), (w.setSie h true).running h fun s => { s with calledOn := true })

/-- `intr_off()` called by an entry function. -/
def userIntrOff : Code H Unit :=
  act fun h w =>
    ((), (w.setSie h false).running h fun s => { s with calledOff := true })

def Lock.isProc : Lock → Bool
  | .proc _ => true
  | _ => false

/-- One action of an entry function that holds `held`; an action that it may not
take with these locks is passed over. -/
def takeAction (img : Image) (held : List Lock) : Action → Code H (List Lock)
  | .compute => return held
  | .acquire lk =>
      if lk ∈ held then return held
      else do
        acquire lk
        return lk :: held
  | .release lk =>
      if lk ∈ held then do
        release lk
        return held.erase lk
      else return held
  | .wakeup chan =>
      if held.any Lock.isProc then return held
      else do
        wakeup chan
        return held
  | .sleep chan lk =>
      if held = [lk] then do
        sleep img chan (some lk)
        return held
      else return held
  | .createProcess entrypoint =>
      if held = [] then do
        let _ ← createProcess img entrypoint
        return held
      else return held
  | .exitProcess status =>
      if held = [] then do
        let never ← exitProcess img status
        return never.elim
      else return held
  | .waitProcess status =>
      if held = [] then do
        let _ ← waitProcess status
        return held
      else return held
  | .yield =>
      if held = [] then do
        yield img
        return held
      else return held
  | .printf text =>
      if held = [] then do
        printf text
        return held
      else return held
  | .intrOn =>
      if held = [] then do
        userIntrOn
        return held
      else return held
  | .intrOff =>
      if held = [] then do
        userIntrOff
        return held
      else return held

def clientBody (img : Image) (held : List Lock) : Code H Empty := do
  if held = [] then
    .perform .atEntry
  let action ← choose Action
  let held' ← takeAction img held action
  .perform (.client held')

def initLoopBody (img : Image) : Code H Empty := do
  let (pid, _) ← waitProcess true
  .perform .atEntry
  if 0 ≤ pid.toInt then
    printf ("init: reaped zombie pid " ++ decimal pid ++ "\n")
  else
    yield img
  .perform .atEntry
  .perform .initLoop

def initTask : Code H Empty := do
  .perform .atEntry
  printf "init: starting\n"
  .perform .atEntry
  .perform .initLoop

/-- Addresses in the text of the kernel can be called; a jump elsewhere is an
instruction page fault, of which only `kerneltrap`'s panic is kept. -/
def callable (img : Image) (fn : Word) : Prop := kernBase ≤ fn ∧ fn < img.etext

instance (img : Image) (fn : Word) : Decidable (callable img fn) :=
  inferInstanceAs (Decidable (_ ∧ _))

/-- No entry function returns. -/
def enterBody (img : Image) (fn : Word) : Code H Unit :=
  if fn = img.initTask then do
    let never ← initTask
    return never.elim
  else if callable img fn then do
    let never ← .perform (.client [])
    return never.elim
  else
    panic "kerneltrap:exception"

/-! ## main.c -/

/-- `main` after `procinit`; the source creates one process, `simple_task`. -/
def main (img : Image) (entries : List Word) : Code H Empty := do
  userinit img
  Program.forEach entries fun entrypoint => do
    let _ ← createProcess img entrypoint
  scheduler

end Xv6Kernel.Process
