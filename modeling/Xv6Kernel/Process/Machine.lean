import Xv6Kernel.Process.Trap

/-!
# The machine

All harts run the kernel's code in any order of their instructions, and a hart
takes a timer interrupt at any instant its `sstatus.SIE` is set.
-/

namespace Xv6Kernel.Process

open Xv6Kernel.Foundation Xv6Kernel.Mm

variable {H : Type} [DecidableEq H]

/-- `swtch` saves the registers in the old context and goes on with the new. -/
def transfer (old new : Ctx H) (regs : Context) (h : H) (w : World H) : World H :=
  let w' := { w with cur := Function.update w.cur h new }
  match old with
  | .proc p =>
      { w' with kernel := w.kernel.setProc p fun s => { s with context := regs } }
  | .cpu c => w'.setCpu c fun s => { s with context := regs }

def effect (img : Image) {β : Type} : Instr H β → Effect (Instr H) H (Ctx H) (World H) β
  | .act f => .atomic f
  | .choose _ => .choose
  | .panic message => .halt message
  | .diverge => .call (.perform .diverge)
  | .swtch old new regs => .switch old new (transfer old new regs) ()
  | .acquire lk => .call (acquireBody lk)
  | .release lk => .call (releaseBody lk)
  | .spin lk => .call (spinBody lk)
  | .myproc => .call myprocBody
  | .waitLoop p status => .call (waitBody img p status)
  | .scheduling => .call schedulingBody
  | .initLoop => .call (initLoopBody img)
  | .client held => .call (clientBody img held)
  | .enter fn => .call (enterBody img fn)
  | .atEntry => .call (pure ())
  | .wfi => .call (pure ())

/-- A hart stands in `forkret` between the release of the lock and the last read
of `context.s0`. -/
def inWindow (h : H) (w : World H) : Prop :=
  match w.cur h with
  | .proc p => (w.kernel.shadow p).window = true
  | .cpu _ => False

/-- What the hardware does when a timer interrupt is taken at `pc`. -/
def trapEntry (pc : Word) (h : H) (w : World H) : World H :=
  w.setCsr h fun c =>
    { sstatus := { sie := false, spie := c.sstatus.sie, spp := true }
      sepc := pc
      scause := timerCause }

/-- The machine; if `quiet`, then without timer interrupts in the window of
`forkret`. -/
def platform (img : Image) (quiet : Bool) :
    Platform (Instr H) H (Ctx H) (World H) where
  effect := effect img
  current := World.cur
  fresh c w :=
    match c with
    | .proc p =>
        if (w.kernel.proc p).context.ra = img.forkret then some forkret else none
    | .cpu _ => none
  trap h w w' :=
    (w.csr h).sstatus.sie = true ∧ (quiet = true → ¬ inWindow h w) ∧
      ∃ pc, w' = trapEntry pc h w
  handler := kernelvec img

/-! ## The start -/

def Shadow.initial : Shadow where
  serial := 0
  creator := none
  entry := 0
  phase := .out
  window := false
  startedOn := false
  calledOn := false
  calledOff := false

/-- The data after `procinit`, over any memory. -/
def afterProcinit (memory : Memory) : Kernel where
  proc p :=
    { state := .unused
      chan := none
      killed := 0
      xstate := 0
      pid := 0
      parent := none
      kstack := kstackVa p
      sz := 0
      pagetable := 0
      trapframe := 0
      context := .zero
      name0 := 0 }
  nextpid := 1
  initproc := none
  ticks := 0
  first := true
  console := []
  memory := memory
  shadow _ := .initial
  born := 0
  booted := false
  log := []
  calls := 0
  senders := []
  sending := false

/-- Every lock is free, and `start` has enabled interrupts before `main`. -/
def bootWorld (memory : Memory) : World H where
  kernel := afterProcinit memory
  lock _ := ⟨none, none⟩
  cpus _ := ⟨none, .zero, 0, false⟩
  csr _ := ⟨⟨true, false, false⟩, 0, 0⟩
  cur h := .cpu h

/-- The hart `boot` runs `main`; the others come to their schedulers. -/
def boot (img : Image) (hart : H) (entries : List Word) (memory : Memory) :
    Config (Instr H) H (Ctx H) (World H) where
  world := bootWorld memory
  code h := if h = hart then main img entries else scheduler
  saved _ := panic "never run"

end Xv6Kernel.Process
