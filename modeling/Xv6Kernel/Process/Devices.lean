import Xv6Kernel.Mm.KvmMap
import Xv6Kernel.Process.PageRuns

/-!
# The registers that interrupts touch

`devintr` with the drivers under it, down to the loads and stores of device registers.
The kernel page table has the UART and no PLIC.
-/

namespace Xv6Kernel.Process

open Xv6Kernel.Foundation Xv6Kernel.Mm Relation

/-- Loads and stores of registers; the answer of a load is up to the device. -/
inductive DevInstr : Type → Type 1 where
  | read (address : Word) : DevInstr CInt
  | write (address : Word) (value : CInt) : DevInstr Unit
  | panic {β : Type} (message : String) : DevInstr β
  | diverge {β : Type} : DevInstr β

def DevInstr.address {β : Type} : DevInstr β → Option Word
  | .read address => some address
  | .write address _ => some address
  | .panic _ => none
  | .diverge => none

abbrev DevM := Program DevInstr

namespace Devices

def readReg (address : Word) : DevM CInt := .perform (.read address)
def writeReg (address : Word) (value : CInt) : DevM Unit := .perform (.write address value)

/-! ## plic.c -/

def plic : Word := 0x0c000000

/-- `PLIC_SCLAIM(0)`. -/
def plicSclaim : Word := plic + 0x201004

def plicClaim : DevM CInt := readReg plicSclaim
def plicComplete (irq : CInt) : DevM Unit := writeReg plicSclaim irq

/-! ## uart.c -/

def rhr : Word := 0
def thr : Word := 0
def isr : Word := 2
def lsr : Word := 5

/-- `Reg(reg)`. -/
def reg (offset : Word) : Word := uart0 + offset

/-- `fuel` bounds the rounds that the transmitter stays busy. -/
def uartPutc : Nat → CInt → DevM Unit
  | 0, _ => .perform .diverge
  | fuel + 1, c => do
      if (← readReg (reg lsr)) &&& 0x20 = 0 then
        uartPutc fuel c
      else
        writeReg (reg thr) c

def uartgetc : DevM CInt := do
  if (← readReg (reg lsr)) &&& 0x01 ≠ 0 then
    readReg (reg rhr)
  else
    return -1

/-- The loop of `uart_intr`, where `consoleintr` drops the character; `fuel` bounds the
characters. -/
def uartIntrLoop : Nat → DevM Unit
  | 0 => .perform .diverge
  | fuel + 1 => do
      if (← uartgetc) = -1 then
        return ()
      uartIntrLoop fuel

def uartIntr (fuel : Nat) : DevM Unit := do
  let _ ← readReg (reg isr)
  uartIntrLoop fuel

/-! ## trap.c -/

/-- What `printf` sends of a text without arguments left. -/
def printf (fuel : Nat) (text : String) : DevM Unit :=
  Program.forEach text.toList fun c => uartPutc fuel (BitVec.ofNat 32 c.toNat)

/-- `timer_interrupt` as far as devices are concerned. -/
def timerInterrupt (fuel : Nat) (ticks : CInt) : DevM Unit :=
  printf fuel ("tick " ++ decimal ticks ++ "\n")

def devintr (fuel : Nat) (ticks : CInt) (scause : Word) : DevM CInt := do
  if scause = externalCause then
    let irq ← plicClaim
    if irq = 10 then
      uartIntr fuel
    else if irq = 1 then
      .perform (.panic "virtio_disk_intr not implemented in lab 4")
    else if irq ≠ 0 then
      printf fuel ("unexpected interrupt irq=" ++ decimal irq ++ "\n")
    if irq ≠ 0 then
      plicComplete irq
    return 1
  else if scause = timerCause then
    timerInterrupt fuel ticks
    return 2
  else
    return 0

/-! ## What is mapped -/

/-- The registers touched can be read and written under the kernel page table. -/
def Translated (m : Memory) {β : Type} (i : DevInstr β) : Prop :=
  ∀ address, i.address = some address →
    ∃ pa flags, translate m m.kernelPagetable address = some (pa, flags) ∧
      flags &&& (pteR ||| pteW) = pteR ||| pteW

/-- Whatever the devices answer and however long they take, the handler stays within
mapped registers. -/
def StaysMapped (m : Memory) (ticks : CInt) (scause : Word) : Prop :=
  ∀ fuel, (devintr fuel ticks scause).Every fun i => Translated m i

variable {img : Image} {kstack : Slot → Word} {k : Kernel} {pages : List Word}
  {trees : Option Slot → Tables} {m : Memory}

theorem entryAt_kernel (hinv : PageInv img kstack k pages trees) {va : Word}
    (hlt : va.toNat < 2 ^ 39) : entryAt k.memory k.memory.kernelPagetable va =
      entryFor (kernelMap img kstack (pgRoundDown va)) := by
  have htree := hinv.owned.tree none
  have hdown : (pgRoundDown va).toNat < 2 ^ 39 := by
    rw [pgRoundDown_toNat]
    omega
  rw [← hinv.kernel.entryAt htree (pgRoundDown_aligned va) hdown,
    entryAt_eq htree hinv.kernel.root, entryAt_eq htree hinv.kernel.root, pteOf, pteOf,
    key_pgRoundDown]

theorem kernelMap_uart (himg : KernelImage img) :
    kernelMap img kstack uart0 = some (uart0, pteR ||| pteW) := by
  have hstack : ∀ p, uart0 ≠ kstackVa p := by decide
  have htext := himg.text
  have hbase := kernBase_toNat
  have huart : uart0.toNat = 0x10000000 := by decide
  rw [BitVec.lt_def] at htext
  rw [kernelMap_other hstack, kvminitMap, if_neg, if_neg, if_pos rfl]
  · simp only [BitVec.le_def, BitVec.lt_def]
    omega
  · simp only [BitVec.le_def, BitVec.lt_def]
    omega

theorem kernelMap_plic (himg : KernelImage img) :
    kernelMap img kstack (pgRoundDown plicSclaim) = none := by
  have hstack : ∀ p, pgRoundDown plicSclaim ≠ kstackVa p := by decide
  have htext := himg.text
  have hbase := kernBase_toNat
  have hplic : (pgRoundDown plicSclaim).toNat = 0x0c201000 := by decide
  rw [BitVec.lt_def] at htext
  rw [kernelMap_other hstack, kvminitMap, if_neg, if_neg, if_neg (by decide)]
  · simp only [BitVec.le_def, BitVec.lt_def]
    omega
  · simp only [BitVec.le_def, BitVec.lt_def]
    omega

theorem translated_uart (himg : KernelImage img) (hinv : PageInv img kstack k pages trees)
    {offset : Word} (hoffset : pgRoundDown (reg offset) = uart0)
    (hlt : (reg offset).toNat < 2 ^ 39) : ∃ pa flags,
      translate k.memory k.memory.kernelPagetable (reg offset) = some (pa, flags) ∧
        flags &&& (pteR ||| pteW) = pteR ||| pteW := by
  have hentry := entryAt_kernel hinv hlt
  rw [hoffset, kernelMap_uart himg] at hentry
  exact ⟨_, _, translate_leaf ⟨by decide, by decide⟩ (by decide) hentry, by decide⟩

section Every

variable {good : ∀ {β : Type}, DevInstr β → Prop}

theorem every_forEach {ι : Type} {items : List ι} {body : ι → DevM Unit}
    (hbody : ∀ item, (body item).Every good) : (Program.forEach items body).Every good := by
  induction items with
  | nil => trivial
  | cons item items ih => exact (hbody item).bind fun _ => ih

variable (hread : ∀ offset ∈ [isr, lsr, rhr], good (.read (reg offset)))
  (hwrite : ∀ value, good (.write (reg thr) value))
  (hdiverge : ∀ {β : Type}, good (.diverge : DevInstr β))
include hread hwrite hdiverge

theorem every_printf (fuel : Nat) (text : String) : (printf fuel text).Every good := by
  have hputc : ∀ c, (uartPutc fuel c).Every good := by
    intro c
    induction fuel with
    | zero => exact Program.every_perform hdiverge
    | succ fuel ih =>
        refine (Program.every_perform (hread lsr (by simp))).bind fun answer => ?_
        split
        · exact ih
        · exact Program.every_perform (hwrite c)
  exact every_forEach fun c => hputc _

end Every

/-- An external interrupt makes the handler ask the PLIC. -/
theorem not_staysMapped (himg : KernelImage img) (hinv : PageInv img kstack k pages trees)
    (ticks : CInt) : ¬ StaysMapped k.memory ticks externalCause := by
  intro hmapped
  have hclaim := hmapped 0
  rw [devintr, if_pos rfl] at hclaim
  obtain ⟨pa, flags, htranslate, -⟩ := hclaim.1 plicSclaim rfl
  rw [Mm.translate, entryAt_kernel hinv (by decide), kernelMap_plic himg, if_neg (by decide)]
    at htranslate
  cases htranslate

/-- The handler stays within mapped registers unless the cause is an external interrupt,
which sends it to the PLIC. -/
theorem devintr_staysMapped_iff {H : Type} [DecidableEq H] {quiet : Bool} {h : H}
    (himg : KernelImage img) (tramp : Trampoline img) {m₀ : Memory} (hzero : m₀.freelist = 0)
    (hboot : exec (bootMemory img) m₀ = .ok ((), m)) {w : World H}
    (hrun : ReflTransGen (PageStep img quiet h) (bootWorld m) w) (ticks : CInt)
    (scause : Word) :
    StaysMapped w.kernel.memory ticks scause ↔ scause ≠ externalCause := by
  obtain ⟨kstack, pages, trees, hinv⟩ := PageInv.reached himg tramp hzero hboot hrun
  constructor
  · rintro hmapped rfl
    exact not_staysMapped himg hinv ticks hmapped
  · intro hcause fuel
    rw [devintr, if_neg hcause]
    split
    · refine Program.Every.bind ?_ fun _ => trivial
      have huart : ∀ offset ∈ [isr, lsr, rhr], ∀ address, some (reg offset) = some address →
          ∃ pa flags, translate w.kernel.memory w.kernel.memory.kernelPagetable address =
            some (pa, flags) ∧ flags &&& (pteR ||| pteW) = pteR ||| pteW := by
        rintro offset hoffset address heq
        cases heq
        simp only [List.mem_cons, List.not_mem_nil, or_false] at hoffset
        rcases hoffset with rfl | rfl | rfl <;>
          exact translated_uart himg hinv (by decide) (by decide)
      refine every_printf huart (fun value address heq => ?_) (fun address heq => ?_) fuel _
      · cases heq
        exact translated_uart himg hinv (by decide) (by decide)
      · cases heq
    · trivial

theorem devintr_staysMapped_sample : ∃ m₀ m : Memory, m₀.freelist = 0 ∧
    exec (bootMemory sampleImage) m₀ = .ok ((), m) ∧
      ∀ scause, StaysMapped m 0 scause ↔ scause ≠ externalCause := by
  obtain ⟨himg, tramp, -⟩ := sampleImage_ok
  obtain ⟨m₀, m, hzero, hboot⟩ := exists_bootMemory himg
  have hrun : ReflTransGen (PageStep sampleImage false ()) (bootWorld m)
      (bootWorld m : World Unit) := .refl
  exact ⟨m₀, m, hzero, hboot, devintr_staysMapped_iff himg tramp hzero hboot hrun 0⟩

/-- Right after the boot an external interrupt reads the PLIC, which is not mapped. -/
theorem devintr_leaves_map : ∃ m₀ m : Memory, m₀.freelist = 0 ∧
    exec (bootMemory sampleImage) m₀ = .ok ((), m) ∧ ¬ StaysMapped m 0 externalCause := by
  obtain ⟨himg, tramp, -⟩ := sampleImage_ok
  obtain ⟨m₀, m, hzero, hboot⟩ := exists_bootMemory himg
  have hrun : ReflTransGen (PageStep sampleImage false ()) (bootWorld m)
      (bootWorld m : World Unit) := .refl
  obtain ⟨kstack, pages, trees, hinv⟩ := PageInv.reached himg tramp hzero hboot hrun
  exact ⟨m₀, m, hzero, hboot, not_staysMapped himg hinv 0⟩

end Devices

end Xv6Kernel.Process
