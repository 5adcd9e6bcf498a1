import Xv6Kernel.Mm.KernelSpace
import Xv6Kernel.Process.Trampoline
import Xv6Kernel.Process.World

/-!
# kernelvec, swtch and the frames of C functions

The listings of kernelvec.S and swtch.S, and the stack frame that a compiled C function
opens in its prologue and closes in its epilogue.  A memory cell is the word at a
multiple of eight.
-/

namespace Xv6Kernel.Process.Registers

open Xv6Kernel.Mm

/-- The general registers, and the two that a trap overwrites. -/
inductive XReg where
  | gpr (r : Reg)
  | sepc
  | sstatus
  deriving DecidableEq

abbrev Regs := XReg → Word
abbrev Cells := Word → Word

/-- `sd` and `ld` of `sepc` and `sstatus` stand for two instructions, with `csrr` or
`csrw`. -/
inductive Insn where
  | addi (r : Reg) (n : Word)
  | sd (x : XReg) (offset : Word) (base : Reg)
  | ld (x : XReg) (offset : Word) (base : Reg)
  deriving DecidableEq

namespace Insn

def exec : Insn → Regs × Cells → Regs × Cells
  | .addi r n, c => (Function.update c.1 (.gpr r) (c.1 (.gpr r) + n), c.2)
  | .sd x offset base, c =>
      (c.1, Function.update c.2 (c.1 (.gpr base) + offset) (c.1 x))
  | .ld x offset base, c =>
      (Function.update c.1 x (c.2 (c.1 (.gpr base) + offset)), c.2)

def run : List Insn → Regs × Cells → Regs × Cells
  | [], c => c
  | i :: is, c => run is (i.exec c)

theorem exec_addi_self (r : Reg) (n : Word) (c : Regs × Cells) :
    ((Insn.addi r n).exec c).1 (.gpr r) = c.1 (.gpr r) + n :=
  Function.update_self (XReg.gpr r) _ c.1

theorem exec_addi_other (r : Reg) (n : Word) (c : Regs × Cells) {x : XReg} (hx : x ≠ .gpr r) :
    ((Insn.addi r n).exec c).1 x = c.1 x :=
  Function.update_of_ne hx ..

end Insn

/-! ## Kernelvec.S -/

/-- `kernelvec` up to the call of `kerneltrap`. -/
def kernelvecSaves : List Insn :=
  [.addi .sp (-256),
    .sd (.gpr .ra) 0 .sp,
    .sd (.gpr .gp) 16 .sp,
    .sd (.gpr .tp) 24 .sp,
    .sd (.gpr .t0) 32 .sp,
    .sd (.gpr .t1) 40 .sp,
    .sd (.gpr .t2) 48 .sp,
    .sd (.gpr .a0) 72 .sp,
    .sd (.gpr .a1) 80 .sp,
    .sd (.gpr .a2) 88 .sp,
    .sd (.gpr .a3) 96 .sp,
    .sd (.gpr .a4) 104 .sp,
    .sd (.gpr .a5) 112 .sp,
    .sd (.gpr .a6) 120 .sp,
    .sd (.gpr .a7) 128 .sp,
    .sd (.gpr .t3) 216 .sp,
    .sd (.gpr .t4) 224 .sp,
    .sd (.gpr .t5) 232 .sp,
    .sd (.gpr .t6) 240 .sp]

/-- `kernelvec` between the call and `sret`. -/
def kernelvecRestores : List Insn :=
  [.ld (.gpr .ra) 0 .sp,
    .ld (.gpr .gp) 16 .sp,
    .ld (.gpr .t0) 32 .sp,
    .ld (.gpr .t1) 40 .sp,
    .ld (.gpr .t2) 48 .sp,
    .ld (.gpr .a0) 72 .sp,
    .ld (.gpr .a1) 80 .sp,
    .ld (.gpr .a2) 88 .sp,
    .ld (.gpr .a3) 96 .sp,
    .ld (.gpr .a4) 104 .sp,
    .ld (.gpr .a5) 112 .sp,
    .ld (.gpr .a6) 120 .sp,
    .ld (.gpr .a7) 128 .sp,
    .ld (.gpr .t3) 216 .sp,
    .ld (.gpr .t4) 224 .sp,
    .ld (.gpr .t5) 232 .sp,
    .ld (.gpr .t6) 240 .sp,
    .addi .sp 256]

/-! ## Swtch.S -/

/-- `swtch` up to `ret`. -/
def swtch : List Insn :=
  [.sd (.gpr .ra) 0 .a0,
    .sd (.gpr .sp) 8 .a0,
    .sd (.gpr .s0) 16 .a0,
    .sd (.gpr .s1) 24 .a0,
    .sd (.gpr .s2) 32 .a0,
    .sd (.gpr .s3) 40 .a0,
    .sd (.gpr .s4) 48 .a0,
    .sd (.gpr .s5) 56 .a0,
    .sd (.gpr .s6) 64 .a0,
    .sd (.gpr .s7) 72 .a0,
    .sd (.gpr .s8) 80 .a0,
    .sd (.gpr .s9) 88 .a0,
    .sd (.gpr .s10) 96 .a0,
    .sd (.gpr .s11) 104 .a0,
    .ld (.gpr .ra) 0 .a1,
    .ld (.gpr .sp) 8 .a1,
    .ld (.gpr .s0) 16 .a1,
    .ld (.gpr .s1) 24 .a1,
    .ld (.gpr .s2) 32 .a1,
    .ld (.gpr .s3) 40 .a1,
    .ld (.gpr .s4) 48 .a1,
    .ld (.gpr .s5) 56 .a1,
    .ld (.gpr .s6) 64 .a1,
    .ld (.gpr .s7) 72 .a1,
    .ld (.gpr .s8) 80 .a1,
    .ld (.gpr .s9) 88 .a1,
    .ld (.gpr .s10) 96 .a1,
    .ld (.gpr .s11) 104 .a1]

/-- The fields of `struct context` in the order of their declaration. -/
def contextRegs : List Reg :=
  [.ra, .sp, .s0, .s1, .s2, .s3, .s4, .s5, .s6, .s7, .s8, .s9, .s10, .s11]

/-- Where `struct context` has a register. -/
def contextOffset (r : Reg) : Word := BitVec.ofNat 64 (8 * contextRegs.idxOf r)

/-- What a C function gives back to its caller as it was, `sp` apart. -/
def kept : Reg → Bool
  | .ra | .s0 | .s1 | .s2 | .s3 | .s4 | .s5 | .s6 | .s7 | .s8 | .s9 | .s10 | .s11 => true
  | _ => false

theorem swtch_eq : swtch =
    contextRegs.map (fun r => .sd (.gpr r) (contextOffset r) .a0) ++
      contextRegs.map (fun r => .ld (.gpr r) (contextOffset r) .a1) := by decide

theorem mem_contextRegs {r : Reg} : r ∈ contextRegs ↔ r = .sp ∨ kept r = true := by
  cases r <;> decide

theorem contextOffset_inj : ∀ r ∈ contextRegs, ∀ r' ∈ contextRegs,
    contextOffset r = contextOffset r' → r = r' := by decide

/-! ## Frames -/

/-- A stack frame and the registers spilled in it, each with its offset. -/
structure StackFrame where
  size : Nat
  slots : List (XReg × Nat)
  size_le : size ≤ 4096
  sixteen : size % 16 = 0
  inside : ∀ slot ∈ slots, slot.2 + 8 ≤ size
  aligned : ∀ slot ∈ slots, slot.2 % 8 = 0
  offsets : (slots.map Prod.snd).Nodup
  sp_free : ∀ slot ∈ slots, slot.1 ≠ .gpr .sp
  deriving DecidableEq

namespace StackFrame

def store (slot : XReg × Nat) : Insn := .sd slot.1 (BitVec.ofNat 64 slot.2) .sp

def load (slot : XReg × Nat) : Insn := .ld slot.1 (BitVec.ofNat 64 slot.2) .sp

def opens (fr : StackFrame) : List Insn :=
  .addi .sp (-BitVec.ofNat 64 fr.size) :: fr.slots.map store

def closes (fr : StackFrame) (slots : List (XReg × Nat)) : List Insn :=
  slots.map load ++ [.addi .sp (BitVec.ofNat 64 fr.size)]

/-- The cell of a slot in the frame opened at the stack pointer `top`. -/
def cell (fr : StackFrame) (top : Word) (slot : XReg × Nat) : Word :=
  top - BitVec.ofNat 64 fr.size + BitVec.ofNat 64 slot.2

end StackFrame

/-- The frame of `kernelvec`. -/
def kernelvecFrame : StackFrame where
  size := 256
  slots :=
    [(.gpr .ra, 0), (.gpr .gp, 16), (.gpr .tp, 24), (.gpr .t0, 32), (.gpr .t1, 40),
      (.gpr .t2, 48), (.gpr .a0, 72), (.gpr .a1, 80), (.gpr .a2, 88), (.gpr .a3, 96),
      (.gpr .a4, 104), (.gpr .a5, 112), (.gpr .a6, 120), (.gpr .a7, 128), (.gpr .t3, 216),
      (.gpr .t4, 224), (.gpr .t5, 232), (.gpr .t6, 240)]
  size_le := by decide
  sixteen := by decide
  inside := by decide
  aligned := by decide
  offsets := by decide
  sp_free := by decide

/-- What `kernelvec` loads again: not `tp`. -/
def kernelvecReloads : List (XReg × Nat) :=
  kernelvecFrame.slots.filter fun slot => slot.1 ≠ .gpr .tp

theorem kernelvecSaves_eq : kernelvecSaves = kernelvecFrame.opens := by decide

theorem kernelvecRestores_eq :
    kernelvecRestores = kernelvecFrame.closes kernelvecReloads := by decide

theorem kernelvecReloads_sub : kernelvecReloads ⊆ kernelvecFrame.slots :=
  List.filter_subset_self _

/-- Every register but `tp` is reloaded, or `kerneltrap` has kept it. -/
theorem kernelvec_covers (r : Reg) (hsp : r ≠ .sp) (htp : r ≠ .tp) :
    (∃ slot ∈ kernelvecReloads, slot.1 = .gpr r) ∨
      kept r = true ∧ ∀ slot ∈ kernelvecFrame.slots, slot.1 ≠ .gpr r := by
  cases r <;> first | exact absurd rfl hsp | exact absurd rfl htp | decide

/-- A compiled C function; `endless` if it never returns.  The locals `sepc` and `sstatus`
of `kerneltrap` live in its frame. -/
structure Func extends StackFrame where
  endless : Bool
  trap : Bool
  spills : ∀ slot ∈ slots, (∃ r, kept r = true ∧ slot.1 = .gpr r) ∨
    trap = true ∧ (slot.1 = .sepc ∨ slot.1 = .sstatus)
  locals : trap = true → ∃ i j, (.sepc, i) ∈ slots ∧ (.sstatus, j) ∈ slots
  deriving DecidableEq

/-! ## Opening and closing a frame -/

section Frames

variable {lo hi : Nat} {fr : StackFrame} {e regs regs' : Regs} {memory memory' : Cells}
  {is : List Insn} {slots : List (XReg × Nat)} {i : Insn}

/-- The frame is open: `e` are the registers at the entry. -/
structure Based (lo : Nat) (fr : StackFrame) (e regs : Regs) : Prop where
  sp : regs (.gpr .sp) = e (.gpr .sp) - BitVec.ofNat 64 fr.size
  room : lo + fr.size ≤ (e (.gpr .sp)).toNat

def Held (fr : StackFrame) (e : Regs) (memory : Cells) (slots : List (XReg × Nat)) : Prop :=
  ∀ slot ∈ slots, memory (fr.cell (e (.gpr .sp)) slot) = e slot.1

/-- Between two instructions that open the frame; the list is what is left to execute. -/
inductive Opening (lo : Nat) (fr : StackFrame) (e : Regs) :
    List Insn → Regs → Cells → Prop
  | start {regs : Regs} {memory : Cells} (sp : regs (.gpr .sp) = e (.gpr .sp))
      (same : ∀ slot ∈ fr.slots, regs slot.1 = e slot.1) :
      Opening lo fr e fr.opens regs memory
  | storing {regs : Regs} {memory : Cells} (stored todo : List (XReg × Nat))
      (split : fr.slots = stored ++ todo) (based : Based lo fr e regs)
      (held : Held fr e memory stored) (same : ∀ slot ∈ todo, regs slot.1 = e slot.1) :
      Opening lo fr e (todo.map StackFrame.store) regs memory

/-- Between two instructions that close the frame. -/
inductive Closing (lo : Nat) (fr : StackFrame) (slots : List (XReg × Nat)) (e : Regs) :
    List Insn → Regs → Cells → Prop
  | loading {regs : Regs} {memory : Cells} (loaded todo : List (XReg × Nat))
      (split : slots = loaded ++ todo) (based : Based lo fr e regs)
      (held : Held fr e memory slots) (same : ∀ slot ∈ loaded, regs slot.1 = e slot.1) :
      Closing lo fr slots e (fr.closes todo) regs memory
  | closed {regs : Regs} {memory : Cells} (sp : regs (.gpr .sp) = e (.gpr .sp))
      (same : ∀ slot ∈ slots, regs slot.1 = e slot.1) :
      Closing lo fr slots e [] regs memory

/-- The registers a frame is about, and the part of the stack it lies in. -/
theorem Based.cell_range (based : Based lo fr e regs) {slot : XReg × Nat}
    (hslot : slot ∈ fr.slots) :
    (regs (.gpr .sp)).toNat + fr.size = (e (.gpr .sp)).toNat ∧
      (fr.cell (e (.gpr .sp)) slot).toNat = (regs (.gpr .sp)).toNat + slot.2 := by
  have hinside := fr.inside slot hslot
  have hle := fr.size_le
  have hroom := based.room
  have hsize : (BitVec.ofNat 64 fr.size).toNat = fr.size := Nat.mod_eq_of_lt (by omega)
  have hoffset : (BitVec.ofNat 64 slot.2).toNat = slot.2 := Nat.mod_eq_of_lt (by omega)
  rw [StackFrame.cell, based.sp]
  bv_omega

theorem Based.sp_toNat (based : Based lo fr e regs) :
    (regs (.gpr .sp)).toNat + fr.size = (e (.gpr .sp)).toNat := by
  have hle := fr.size_le
  have hroom := based.room
  have hsize : (BitVec.ofNat 64 fr.size).toNat = fr.size := Nat.mod_eq_of_lt (by omega)
  rw [based.sp]
  bv_omega

theorem StackFrame.cell_inj {top : Word} {slot slot' : XReg × Nat} (hslot : slot ∈ fr.slots)
    (hslot' : slot' ∈ fr.slots) (heq : fr.cell top slot = fr.cell top slot') :
    slot.2 = slot'.2 := by
  have h := fr.inside slot hslot
  have h' := fr.inside slot' hslot'
  have hle := fr.size_le
  have hoffsets := congrArg BitVec.toNat (add_left_cancel heq)
  simp only [BitVec.toNat_ofNat] at hoffsets
  omega

/-- The cell that `sd` or `ld` of a slot touches in an open frame. -/
theorem Based.address (based : Based lo fr e regs) (slot : XReg × Nat) :
    regs (.gpr .sp) + BitVec.ofNat 64 slot.2 = fr.cell (e (.gpr .sp)) slot := by
  rw [based.sp, StackFrame.cell]

theorem Opening.step {is₀ : List Insn} (opening : Opening lo fr e is₀ regs memory)
    (heq : is₀ = i :: is) (hhi : (e (.gpr .sp)).toNat ≤ hi) (hbound : hi < 2 ^ 63)
    (hlo : lo ≤ ((i.exec (regs, memory)).1 (.gpr .sp)).toNat)
    (hin : ((i.exec (regs, memory)).1 (.gpr .sp)).toNat ≤ hi) :
    Opening lo fr e is (i.exec (regs, memory)).1 (i.exec (regs, memory)).2 ∧
      (∀ x, x ≠ .gpr .sp → (i.exec (regs, memory)).1 x = regs x) ∧
      ∀ a, (i.exec (regs, memory)).2 a ≠ memory a →
        lo ≤ a.toNat ∧ a.toNat < (e (.gpr .sp)).toNat := by
  cases opening with
  | start sp same =>
      obtain ⟨rfl, rfl⟩ := List.cons.inj heq
      have hregs : ∀ x, x ≠ .gpr .sp → (Insn.exec (.addi .sp (-BitVec.ofNat 64 fr.size))
          (regs, memory)).1 x = regs x := fun x hx => Insn.exec_addi_other _ _ _ hx
      have hsp : (Insn.exec (.addi .sp (-BitVec.ofNat 64 fr.size)) (regs, memory)).1 (.gpr .sp) =
          e (.gpr .sp) - BitVec.ofNat 64 fr.size := by
        rw [Insn.exec_addi_self, BitVec.sub_eq_add_neg, ← sp]
      rw [hsp] at hlo hin
      have hroom : lo + fr.size ≤ (e (.gpr .sp)).toNat := by
        have hle := fr.size_le
        have hsize : (BitVec.ofNat 64 fr.size).toNat = fr.size := Nat.mod_eq_of_lt (by omega)
        rw [BitVec.toNat_sub, hsize] at hlo hin
        omega
      refine ⟨.storing [] fr.slots rfl ⟨hsp, hroom⟩ (by simp [Held]) fun slot hslot => ?_, hregs,
        fun a ha => absurd rfl ha⟩
      rw [hregs _ (fr.sp_free slot hslot)]
      exact same slot hslot
  | storing stored todo split based held same =>
      cases todo with
      | nil => exact absurd heq (by simp)
      | cons slot todo =>
          obtain ⟨rfl, rfl⟩ := List.cons.inj heq
          have hslot : slot ∈ fr.slots := by simp [split]
          obtain ⟨hsp, hcell⟩ := based.cell_range hslot
          have hinside := fr.inside slot hslot
          have hroom := based.room
          have hexec : (StackFrame.store slot).exec (regs, memory) =
              (regs, Function.update memory (fr.cell (e (.gpr .sp)) slot) (regs slot.1)) := by
            rw [StackFrame.store, Insn.exec, based.address slot]
          have hnodup := fr.offsets
          rw [split, List.map_append, List.map_cons, List.nodup_append] at hnodup
          rw [hexec]
          refine ⟨.storing (stored ++ [slot]) todo (by simp [split]) based ?_
            fun s hs => same s (.tail _ hs), fun x _ => rfl, fun a ha => ?_⟩
          · intro s hs
            rcases List.mem_append.mp hs with hs | hs
            · have hne : fr.cell (e (.gpr .sp)) s ≠ fr.cell (e (.gpr .sp)) slot := by
                intro hcells
                have hs' : s ∈ fr.slots := split ▸ List.mem_append_left _ hs
                exact hnodup.2.2 _ (List.mem_map_of_mem hs) _ List.mem_cons_self
                  (StackFrame.cell_inj hs' hslot hcells)
              exact (Function.update_of_ne hne ..).trans (held s hs)
            · rw [List.mem_singleton.mp hs]
              exact (Function.update_self ..).trans (same slot List.mem_cons_self)
          · have ha' : a = fr.cell (e (.gpr .sp)) slot := by
              by_contra hne
              exact ha (Function.update_of_ne hne ..)
            subst ha'
            omega

theorem Closing.step {is₀ : List Insn} (closing : Closing lo fr slots e is₀ regs memory)
    (heq : is₀ = i :: is) (hsub : slots ⊆ fr.slots) :
    Closing lo fr slots e is (i.exec (regs, memory)).1 (i.exec (regs, memory)).2 ∧
      (∀ x, x ≠ .gpr .sp → (i.exec (regs, memory)).1 x = regs x ∨
        (∃ slot ∈ slots, slot.1 = x) ∧ (i.exec (regs, memory)).1 x = e x) ∧
      (i.exec (regs, memory)).2 = memory := by
  cases closing with
  | closed sp same => exact absurd heq (by simp)
  | loading loaded todo split based held same =>
      cases todo with
      | nil =>
          obtain ⟨rfl, rfl⟩ := List.cons.inj heq
          have hregs : ∀ x, x ≠ .gpr .sp → (Insn.exec (.addi .sp (BitVec.ofNat 64 fr.size))
              (regs, memory)).1 x = regs x := fun x hx => Insn.exec_addi_other _ _ _ hx
          refine ⟨.closed ?_ fun slot hslot => ?_, fun x hx => .inl (hregs x hx), rfl⟩
          · have hsp : regs (.gpr .sp) + BitVec.ofNat 64 fr.size = e (.gpr .sp) := by
              rw [based.sp, BitVec.sub_add_cancel]
            exact (Insn.exec_addi_self ..).trans hsp
          · rw [hregs _ (fr.sp_free slot (hsub hslot))]
            exact same slot (by simpa [split] using hslot)
      | cons slot todo =>
          obtain ⟨rfl, rfl⟩ := List.cons.inj heq
          have hslot : slot ∈ slots := by simp [split]
          have hexec : (StackFrame.load slot).exec (regs, memory) =
              (Function.update regs slot.1 (e slot.1), memory) := by
            rw [StackFrame.load, Insn.exec, based.address slot]
            exact congrArg (fun v => (Function.update regs slot.1 v, memory)) (held slot hslot)
          rw [hexec]
          refine ⟨.loading (loaded ++ [slot]) todo (by simp [split]) ⟨?_, based.room⟩ held
            fun s hs => ?_, fun x _ => ?_, rfl⟩
          · exact (Function.update_of_ne (fr.sp_free slot (hsub hslot)).symm ..).trans based.sp
          · rcases List.mem_append.mp hs with hs | hs
            · by_cases hname : s.1 = slot.1
              · rw [hname]
                exact Function.update_self ..
              · exact (Function.update_of_ne hname ..).trans (same s hs)
            · rw [List.mem_singleton.mp hs]
              exact Function.update_self ..
          · by_cases hname : x = slot.1
            · subst hname
              exact .inr ⟨⟨slot, hslot, rfl⟩, Function.update_self ..⟩
            · exact .inl (Function.update_of_ne hname ..)

/-- A frame being opened depends on the cells from the stack pointer on. -/
theorem Opening.of_same (opening : Opening lo fr e is regs memory)
    (hregs : regs' (.gpr .sp) = regs (.gpr .sp))
    (hslots : ∀ slot ∈ fr.slots, regs' slot.1 = regs slot.1)
    (hmemory : ∀ slot ∈ fr.slots,
      (regs (.gpr .sp)).toNat ≤ (fr.cell (e (.gpr .sp)) slot).toNat →
      (fr.cell (e (.gpr .sp)) slot).toNat < (e (.gpr .sp)).toNat →
      memory' (fr.cell (e (.gpr .sp)) slot) = memory (fr.cell (e (.gpr .sp)) slot)) :
    Opening lo fr e is regs' memory' := by
  cases opening with
  | start sp same =>
      exact .start (hregs.trans sp) fun slot hslot => (hslots slot hslot).trans (same slot hslot)
  | storing stored todo split based held same =>
      have hmem : ∀ slot ∈ todo, slot ∈ fr.slots := fun _ h => split ▸ List.mem_append_right _ h
      refine .storing stored todo split ⟨hregs.trans based.sp, based.room⟩ (fun slot hslot => ?_)
        fun slot hslot => (hslots slot (hmem slot hslot)).trans (same slot hslot)
      have hslot' : slot ∈ fr.slots := split ▸ List.mem_append_left _ hslot
      obtain ⟨hsp, hcell⟩ := based.cell_range hslot'
      have hinside := fr.inside slot hslot'
      rw [hmemory slot hslot' (by omega) (by omega)]
      exact held slot hslot

theorem Closing.of_same (closing : Closing lo fr slots e is regs memory)
    (hsub : slots ⊆ fr.slots) (hregs : regs' (.gpr .sp) = regs (.gpr .sp))
    (hslots : ∀ slot ∈ slots, regs' slot.1 = regs slot.1)
    (hmemory : ∀ slot ∈ fr.slots,
      (regs (.gpr .sp)).toNat ≤ (fr.cell (e (.gpr .sp)) slot).toNat →
      (fr.cell (e (.gpr .sp)) slot).toNat < (e (.gpr .sp)).toNat →
      memory' (fr.cell (e (.gpr .sp)) slot) = memory (fr.cell (e (.gpr .sp)) slot)) :
    Closing lo fr slots e is regs' memory' := by
  cases closing with
  | closed sp same =>
      exact .closed (hregs.trans sp) fun slot hslot => (hslots slot hslot).trans (same slot hslot)
  | loading loaded todo split based held same =>
      have hmem : ∀ slot ∈ loaded, slot ∈ slots := fun _ h => split ▸ List.mem_append_left _ h
      refine .loading loaded todo split ⟨hregs.trans based.sp, based.room⟩ (fun slot hslot => ?_)
        fun slot hslot => (hslots slot (hmem slot hslot)).trans (same slot hslot)
      obtain ⟨hsp, hcell⟩ := based.cell_range (hsub hslot)
      have hinside := fr.inside slot (hsub hslot)
      rw [hmemory slot (hsub hslot) (by omega) (by omega)]
      exact held slot hslot

end Frames

/-! ## The context switch -/

section Switch

theorem run_append (is is' : List Insn) (c : Regs × Cells) :
    Insn.run (is ++ is') c = Insn.run is' (Insn.run is c) := by
  induction is generalizing c with
  | nil => rfl
  | cons i is ih => exact ih (i.exec c)

theorem run_stores (base : Reg) (regs : Regs) (memory : Cells) (rs : List Reg)
    (hrs : rs ⊆ contextRegs) : ∃ memory',
    Insn.run (rs.map fun r => .sd (.gpr r) (contextOffset r) base) (regs, memory) =
      (regs, memory') ∧
    (∀ r ∈ rs, memory' (regs (.gpr base) + contextOffset r) = regs (.gpr r)) ∧
    ∀ a, (∀ r ∈ rs, a ≠ regs (.gpr base) + contextOffset r) → memory' a = memory a := by
  induction rs generalizing memory with
  | nil => exact ⟨memory, rfl, by simp, fun _ _ => rfl⟩
  | cons r rs ih =>
      have hsub : rs ⊆ contextRegs := fun _ h => hrs (.tail _ h)
      obtain ⟨memory', hrun, hstored, hother⟩ := ih (Function.update memory
        (regs (.gpr base) + contextOffset r) (regs (.gpr r))) hsub
      refine ⟨memory', hrun, fun r' hr' => ?_, fun a ha => ?_⟩
      · by_cases hmem : r' ∈ rs
        · exact hstored r' hmem
        · obtain rfl := (List.mem_cons.mp hr').resolve_right hmem
          refine (hother _ fun r hr heq => ?_).trans (Function.update_self ..)
          have hsame := contextOffset_inj _ (hrs List.mem_cons_self) _ (hsub hr)
            (add_left_cancel heq)
          exact hmem (hsame ▸ hr)
      · rw [List.forall_mem_cons] at ha
        exact (hother a ha.2).trans (Function.update_of_ne ha.1 ..)

theorem run_loads (base : Reg) (regs : Regs) (memory : Cells) (rs : List Reg)
    (hbase : base ∉ rs) : ∃ regs',
    Insn.run (rs.map fun r => .ld (.gpr r) (contextOffset r) base) (regs, memory) =
      (regs', memory) ∧
    (∀ r ∈ rs, regs' (.gpr r) = memory (regs (.gpr base) + contextOffset r)) ∧
    ∀ x, (∀ r ∈ rs, x ≠ .gpr r) → regs' x = regs x := by
  induction rs generalizing regs with
  | nil => exact ⟨regs, rfl, by simp, fun _ _ => rfl⟩
  | cons r rs ih =>
      rw [List.mem_cons, not_or] at hbase
      let regs₁ : Regs :=
        Function.update regs (.gpr r) (memory (regs (.gpr base) + contextOffset r))
      have hsame : regs₁ (.gpr base) = regs (.gpr base) :=
        Function.update_of_ne (fun heq => hbase.1 (XReg.gpr.inj heq)) ..
      obtain ⟨regs', hrun, hloaded, hother⟩ := ih regs₁ hbase.2
      rw [hsame] at hloaded
      refine ⟨regs', hrun, fun r' hr' => ?_, fun x hx => ?_⟩
      · by_cases hmem : r' ∈ rs
        · exact hloaded r' hmem
        · obtain rfl := (List.mem_cons.mp hr').resolve_right hmem
          refine (hother _ fun r hr heq => ?_).trans (Function.update_self ..)
          exact hmem (XReg.gpr.inj heq ▸ hr)
      · rw [List.forall_mem_cons] at hx
        exact (hother x hx.2).trans (Function.update_of_ne hx.1 ..)

/-- What `swtch(old, new)` does, when the two contexts do not overlap. -/
structure Switched (old new : Word) (regs regs' : Regs) (memory memory' : Cells) : Prop where
  saved : ∀ r ∈ contextRegs, memory' (old + contextOffset r) = regs (.gpr r)
  other : ∀ a, (∀ r ∈ contextRegs, a ≠ old + contextOffset r) → memory' a = memory a
  loaded : ∀ r ∈ contextRegs, regs' (.gpr r) = memory (new + contextOffset r)
  kept : ∀ x, (∀ r ∈ contextRegs, x ≠ .gpr r) → regs' x = regs x

theorem run_swtch (regs : Regs) (memory : Cells)
    (hapart : ∀ r ∈ contextRegs, ∀ r' ∈ contextRegs,
      regs (.gpr .a1) + contextOffset r ≠ regs (.gpr .a0) + contextOffset r') :
    Switched (regs (.gpr .a0)) (regs (.gpr .a1)) regs (Insn.run swtch (regs, memory)).1
      memory (Insn.run swtch (regs, memory)).2 := by
  obtain ⟨memory', hstores, hsaved, hother⟩ :=
    run_stores .a0 regs memory contextRegs (List.Subset.refl _)
  obtain ⟨regs', hloads, hloaded, hkept⟩ :=
    run_loads .a1 regs memory' contextRegs (by decide)
  have hrun : Insn.run swtch (regs, memory) = (regs', memory') := by
    rw [swtch_eq, run_append, hstores, hloads]
  rw [hrun]
  exact ⟨hsaved, hother, fun r hr => (hloaded r hr).trans (hother _ (hapart r hr)), hkept⟩

end Switch

end Xv6Kernel.Process.Registers
