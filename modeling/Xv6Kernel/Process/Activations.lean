import Mathlib.Logic.Relation
import Xv6Kernel.Process.Registers

/-!
# Interrupts and context switches at the level of registers

One hart executes the text of the kernel.  Of C code only the calling convention is known:
a function opens a frame, calls others, may change whatever it has not promised to keep,
and closes the frame.  `kernelvec` and `swtch` are executed instruction by instruction.
An interrupt may come before any instruction while `sstatus.SIE` is set.
-/

namespace Xv6Kernel.Process.Registers

open Xv6Kernel.Mm Relation

/-! ## sstatus -/

def sie (sstatus : Word) : Bool := sstatus.getLsbD 1
def spie (sstatus : Word) : Bool := sstatus.getLsbD 5

/-- What the hardware makes of `sstatus` when it takes an interrupt. -/
def trapStatus (sstatus : Word) : Word :=
  ((if sie sstatus then sstatus ||| 0x20 else sstatus &&& ~~~0x20) &&& ~~~0x2) ||| 0x100

/-- What `sret` makes of it. -/
def sretStatus (sstatus : Word) : Word :=
  ((if spie sstatus then sstatus ||| 0x2 else sstatus &&& ~~~0x2) ||| 0x20) &&& ~~~0x100

theorem sie_trapStatus (sstatus : Word) : sie (trapStatus sstatus) = false := by
  unfold trapStatus sie
  split <;> simp

theorem spie_trapStatus (sstatus : Word) : spie (trapStatus sstatus) = sie sstatus := by
  unfold trapStatus spie
  split <;> simp_all

theorem sie_sretStatus (sstatus : Word) : sie (sretStatus sstatus) = spie sstatus := by
  unfold sretStatus sie
  split <;> simp_all

/-! ## Text and memory -/

/-- What stands at an address of the text: code of a C function, of `kernelvec`, or a call
of `swtch`; the lists are the straight code from there on. -/
inductive Block where
  | entering (f : Func) (is : List Insn)
  | body (f : Func)
  | calling (f : Func) (target : Word)
  | switching (f : Func)
  /-- After the list comes `ret`. -/
  | leaving (f : Func) (is : List Insn)
  /-- After the list comes the call of `kerneltrap`. -/
  | saving (is : List Insn)
  /-- After the list comes `sret`. -/
  | restoring (is : List Insn)
  deriving DecidableEq

namespace Block

/-- An instruction of straight code. -/
def insn : Block → Option Insn
  | entering _ (i :: _) => some i
  | leaving _ (i :: _) => some i
  | saving (i :: _) => some i
  | restoring (i :: _) => some i
  | _ => none

/-- Code of a function whose frame is open. -/
def In (f : Func) : Block → Prop
  | entering g [] => g = f
  | body g => g = f
  | calling g _ => g = f
  | switching g => g = f
  | _ => False

end Block

def Func.Spills (f : Func) (r : Reg) : Prop := ∃ slot ∈ f.slots, slot.1 = .gpr r

/-- The text of the kernel, as the compiler and the linker lay it out. -/
structure Text where
  block : Word → Block
  kernelvec : Word
  kerneltrap : Word
  forkret : Word
  /-- The function at `kerneltrap`. -/
  handler : Func
  /-- The function at `forkret`. -/
  thread : Func
  entering_next : ∀ {a f i is}, block a = .entering f (i :: is) →
    block (a + 4) = .entering f is
  leaving_next : ∀ {a f i is}, block a = .leaving f (i :: is) → block (a + 4) = .leaving f is
  saving_next : ∀ {a i is}, block a = .saving (i :: is) → block (a + 4) = .saving is
  restoring_next : ∀ {a i is}, block a = .restoring (i :: is) →
    block (a + 4) = .restoring is
  calling_next : ∀ {a f t}, block a = .calling f t → (block (a + 4)).In f ∧ f.Spills .ra
  calling_target : ∀ {a f t}, block a = .calling f t →
    ∃ g : Func, g.trap = false ∧ block t = .entering g g.opens
  switching_next : ∀ {a f}, block a = .switching f → (block (a + 4)).In f ∧ f.Spills .ra
  kernelvec_block : block kernelvec = .saving kernelvecSaves
  saving_return : ∀ {a}, block a = .saving [] → block (a + 4) = .restoring kernelvecRestores
  handler_block : block kerneltrap = .entering handler handler.opens
  handler_trap : handler.trap = true
  thread_block : block forkret = .entering thread thread.opens
  thread_endless : thread.endless = true
  thread_trap : thread.trap = false

/-- Where the linker has put each `struct context` and the boot stack. -/
structure Placement where
  area : Ctx Unit → Word
  stack0 : Word
  stack0_le : stack0.toNat + 4096 ≤ physTop.toNat
  area_le : ∀ c, (area c).toNat + 112 ≤ physTop.toNat
  area_stack0 : ∀ c, (area c).toNat + 112 ≤ stack0.toNat ∨
    stack0.toNat + 4096 ≤ (area c).toNat
  area_area : ∀ c c', c ≠ c' → (area c).toNat + 112 ≤ (area c').toNat ∨
    (area c').toNat + 112 ≤ (area c).toNat

namespace Placement

variable (L : Placement)

/-- The lowest address of the stack of a context. -/
def low : Ctx Unit → Nat
  | .proc p => (kstackVa p).toNat
  | .cpu _ => L.stack0.toNat

def high (c : Ctx Unit) : Nat := L.low c + 4096

end Placement

/-! ## The machine -/

/-- What lies on a stack: a C function with the registers at its entry, or a trap with the
registers, the pc and the memory that it has interrupted. -/
inductive Activation where
  | call (f : Func) (entry : Regs)
  | trap (regs : Regs) (pc : Word) (memory : Cells)

/-- The activations and `left` are history; no instruction reads them. -/
structure Machine where
  regs : Regs
  memory : Cells
  pc : Word
  /-- The context whose stack the hart is on. -/
  cur : Ctx Unit
  /-- The contexts that may run or be switched to. -/
  live : Ctx Unit → Bool
  acts : Ctx Unit → List Activation
  /-- The registers with which each context has left the hart. -/
  left : Ctx Unit → Regs

/-- The cells that C code leaves alone on its own stack: where registers are spilled, and
whatever belongs to interrupted code. -/
def Guarded : List Activation → Word → Prop
  | [], _ => False
  | .call f e :: acts, a => (∃ slot ∈ f.slots, a = f.cell (e (.gpr .sp)) slot) ∨ Guarded acts a
  | .trap regs _ _ :: _, a =>
      (∃ slot ∈ kernelvecFrame.slots, a = kernelvecFrame.cell (regs (.gpr .sp)) slot) ∨
        (regs (.gpr .sp)).toNat ≤ a.toNat

/-- The cells that C code run by the machine leaves alone. -/
inductive Protected (L : Placement) (m : Machine) (a : Word) : Prop where
  | own (high : a.toNat < L.high m.cur) (guarded : Guarded (m.acts m.cur) a)
  | stack (c : Ctx Unit) (other : c ≠ m.cur) (live : m.live c = true)
      (low : L.low c ≤ a.toNat) (high : a.toNat < L.high c)
  | area (c : Ctx Unit) (other : c ≠ m.cur) (live : m.live c = true) (r : Reg)
      (register : r ∈ contextRegs) (address : a = L.area c + contextOffset r)

/-- The registers in the context that `alloc_process` and `create_process` make. -/
def freshRegs (T : Text) (p : Slot) (entry : Word) : Regs
  | .gpr .ra => T.forkret
  | .gpr .sp => kstackVa p + pgSize
  | .gpr .s0 => entry
  | _ => 0

/-- What a function that has spilled nothing else keeps of the registers. -/
def Unspilled (fr : StackFrame) (e regs : Regs) : Prop :=
  ∀ r, kept r = true → (∀ slot ∈ fr.slots, slot.1 ≠ .gpr r) → regs (.gpr r) = e (.gpr r)

/-- The context that `alloc_process` and `create_process` make is in memory. -/
def Prepared (T : Text) (L : Placement) (p : Slot) (entry : Word) (memory : Cells) : Prop :=
  ∀ r ∈ contextRegs,
    memory (L.area (.proc p) + contextOffset r) = freshRegs T p entry (.gpr r)

def Machine.linked (m : Machine) : Regs := Function.update m.regs (.gpr .ra) (m.pc + 4)

/-- What the hardware does when it takes an interrupt. -/
def Machine.interrupted (T : Text) (m : Machine) : Machine :=
  { m with
    regs := Function.update (Function.update m.regs .sepc m.pc) .sstatus
      (trapStatus (m.regs .sstatus))
    pc := T.kernelvec
    acts := Function.update m.acts m.cur (.trap m.regs m.pc m.memory :: m.acts m.cur) }

inductive Step (T : Text) (L : Placement) : Machine → Machine → Prop where
  /-- An instruction of straight code; the stack does not overflow. -/
  | straight {m : Machine} (i : Insn) (hblock : (T.block m.pc).insn = some i)
      (hlow : L.low m.cur ≤ ((i.exec (m.regs, m.memory)).1 (.gpr .sp)).toNat)
      (hhigh : ((i.exec (m.regs, m.memory)).1 (.gpr .sp)).toNat ≤ L.high m.cur) :
      Step T L m
        { m with
          regs := (i.exec (m.regs, m.memory)).1
          memory := (i.exec (m.regs, m.memory)).2
          pc := m.pc + 4 }
  /-- Any other instruction of a C function.  Before `kerneltrap` restores `sepc` it has
  interrupts off. -/
  | compute {m : Machine} (f : Func) (regs : Regs) (memory : Cells) (pc : Word)
      (hblock : (T.block m.pc).In f)
      (hnext : (T.block pc).In f ∨ T.block pc = .leaving f (f.closes f.slots) ∧
        f.endless = false ∧ (f.trap = true → sie (regs .sstatus) = false))
      (hsp : regs (.gpr .sp) = m.regs (.gpr .sp))
      (hkept : Unspilled f.toStackFrame m.regs regs)
      (hmemory : ∀ a, Protected L m a → memory a = m.memory a) :
      Step T L m { m with regs, memory, pc }
  | call {m : Machine} (f g : Func) (t : Word) (hblock : T.block m.pc = .calling f t)
      (htarget : T.block t = .entering g g.opens) :
      Step T L m
        { m with
          regs := m.linked
          pc := t
          acts := Function.update m.acts m.cur (.call g m.linked :: m.acts m.cur) }
  | ret {m : Machine} (f : Func) (hblock : T.block m.pc = .leaving f []) :
      Step T L m
        { m with
          pc := m.regs (.gpr .ra)
          acts := Function.update m.acts m.cur (m.acts m.cur).tail }
  /-- The call of `kerneltrap`. -/
  | handle {m : Machine} (hblock : T.block m.pc = .saving []) :
      Step T L m
        { m with
          regs := m.linked
          pc := T.kerneltrap
          acts := Function.update m.acts m.cur (.call T.handler m.linked :: m.acts m.cur) }
  | sret {m : Machine} (hblock : T.block m.pc = .restoring []) :
      Step T L m
        { m with
          regs := Function.update m.regs .sstatus (sretStatus (m.regs .sstatus))
          pc := m.regs .sepc
          acts := Function.update m.acts m.cur (m.acts m.cur).tail }
  | interrupt {m : Machine} (hsie : sie (m.regs .sstatus) = true) :
      Step T L m (m.interrupted T)
  /-- A call of `swtch`; a process that exits does not stay. -/
  | switch {m : Machine} (f : Func) (new : Ctx Unit) (stays : Bool)
      (hblock : T.block m.pc = .switching f)
      (hold : m.regs (.gpr .a0) = L.area m.cur) (hnew : m.regs (.gpr .a1) = L.area new)
      (hother : new ≠ m.cur) (hlive : m.live new = true) :
      Step T L m
        { regs := (Insn.run swtch (m.linked, m.memory)).1
          memory := (Insn.run swtch (m.linked, m.memory)).2
          pc := (Insn.run swtch (m.linked, m.memory)).1 (.gpr .ra)
          cur := new
          live := Function.update m.live m.cur stays
          acts := m.acts
          left := Function.update m.left m.cur m.linked }
  /-- A process whose context has been prepared becomes runnable. -/
  | start {m : Machine} (f : Func) (p : Slot) (entry : Word) (hblock : (T.block m.pc).In f)
      (hdead : m.live (.proc p) = false)
      (hother : m.cur ≠ .proc p) (hcontext : Prepared T L p entry m.memory) :
      Step T L m
        { m with
          live := Function.update m.live (.proc p) true
          acts := Function.update m.acts (.proc p) [.call T.thread (freshRegs T p entry)]
          left := Function.update m.left (.proc p) (freshRegs T p entry) }

/-- The hart is in a function that never returns, on the boot stack, and no process is
there yet. -/
structure Boots (T : Text) (L : Placement) (m : Machine) : Prop where
  cur : m.cur = .cpu ()
  code : ∃ f : Func, f.endless = true ∧ f.trap = false ∧ (T.block m.pc).In f ∧
    ∃ e : Regs, m.acts m.cur = [.call f e] ∧
      Based (L.low m.cur) f.toStackFrame e m.regs ∧
      (e (.gpr .sp)).toNat ≤ L.high m.cur ∧
      Held f.toStackFrame e m.memory f.slots ∧ Unspilled f.toStackFrame e m.regs
  alone : ∀ c, c ≠ m.cur → m.live c = false ∧ m.acts c = []

end Xv6Kernel.Process.Registers
