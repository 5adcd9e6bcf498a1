import Mathlib.Logic.Function.Basic
import Xv6Kernel.Mm.Layout

/-!
# uservec and userret

The two listings of trampoline.S, instruction by instruction, against the layout of
`struct trapframe`.  Memory is a word at every physical address; the instructions only
use aligned ones.
-/

namespace Xv6Kernel.Process

open Xv6Kernel.Mm

/-- The general registers but `x0`. -/
inductive Reg where
  | ra | sp | gp | tp | t0 | t1 | t2 | s0 | s1
  | a0 | a1 | a2 | a3 | a4 | a5 | a6 | a7
  | s2 | s3 | s4 | s5 | s6 | s7 | s8 | s9 | s10 | s11
  | t3 | t4 | t5 | t6
  deriving DecidableEq, Repr

/-! ## struct trapframe -/

inductive Field where
  | kernelSatp | kernelSp | kernelTrap | epc | kernelHartid
  | saved (r : Reg)
  deriving DecidableEq, Repr

/-- The fields of `struct trapframe` in the order of their declaration. -/
def trapframeFields : List Field :=
  [.kernelSatp, .kernelSp, .kernelTrap, .epc, .kernelHartid,
    .saved .ra, .saved .sp, .saved .gp, .saved .tp, .saved .t0, .saved .t1, .saved .t2,
    .saved .s0, .saved .s1, .saved .a0, .saved .a1, .saved .a2, .saved .a3, .saved .a4,
    .saved .a5, .saved .a6, .saved .a7, .saved .s2, .saved .s3, .saved .s4, .saved .s5,
    .saved .s6, .saved .s7, .saved .s8, .saved .s9, .saved .s10, .saved .s11,
    .saved .t3, .saved .t4, .saved .t5, .saved .t6]

/-- Every field is a `uint64`. -/
def Field.offset (f : Field) : Word := BitVec.ofNat 64 (8 * trapframeFields.idxOf f)

/-! ## Instructions -/

/-- What translates the address of a page under a value of `satp`. -/
abbrev Mmu := Word → Word → Option Word

structure Hart where
  regs : Reg → Word
  memory : Word → Word
  sscratch : Word
  satp : Word
  sepc : Word
  /-- Where the listing has jumped to. -/
  target : Option Word

inductive Asm where
  | csrwSscratch (r : Reg)
  | csrrSscratch (r : Reg)
  | csrwSatp (r : Reg)
  | sfenceVma
  | li (r : Reg) (value : Word)
  | sd (r : Reg) (offset : Word) (base : Reg)
  | ld (r : Reg) (offset : Word) (base : Reg)
  /-- `jalr r`, which links in `ra`. -/
  | jalr (r : Reg)
  | sret

namespace Hart

def setReg (c : Hart) (r : Reg) (value : Word) : Hart :=
  { c with regs := Function.update c.regs r value }

/-- The physical address of a virtual one. -/
def physical (mmu : Mmu) (c : Hart) (va : Word) : Option Word :=
  (mmu c.satp (pgRoundDown va)).map fun page => page + (va &&& 0xfff)

/-- One instruction, if it does not fault; `link` is the address of the one after a
`jalr`. -/
def exec (mmu : Mmu) (link : Word) (c : Hart) : Asm → Option Hart
  | .csrwSscratch r => some { c with sscratch := c.regs r }
  | .csrrSscratch r => some (c.setReg r c.sscratch)
  | .csrwSatp r => some { c with satp := c.regs r }
  | .sfenceVma => some c
  | .li r value => some (c.setReg r value)
  | .sd r offset base => do
      let address ← c.physical mmu (c.regs base + offset)
      some { c with memory := Function.update c.memory address (c.regs r) }
  | .ld r offset base => do
      let address ← c.physical mmu (c.regs base + offset)
      some (c.setReg r (c.memory address))
  | .jalr r => some { c.setReg .ra link with target := some (c.regs r) }
  | .sret => some { c with target := some c.sepc }

def run (mmu : Mmu) (link : Word) : List Asm → Hart → Option Hart
  | [], c => some c
  | i :: is, c => do
      let c ← c.exec mmu link i
      c.run mmu link is

end Hart

/-! ## trampoline.S -/

def trapframeAddress : Word := 0x3fffffe000

def uservec : List Asm :=
  [.csrwSscratch .a0,
    .li .a0 trapframeAddress,
    .sd .ra 40 .a0,
    .sd .sp 48 .a0,
    .sd .gp 56 .a0,
    .sd .tp 64 .a0,
    .sd .t0 72 .a0,
    .sd .t1 80 .a0,
    .sd .t2 88 .a0,
    .sd .s0 96 .a0,
    .sd .s1 104 .a0,
    .sd .a1 120 .a0,
    .sd .a2 128 .a0,
    .sd .a3 136 .a0,
    .sd .a4 144 .a0,
    .sd .a5 152 .a0,
    .sd .a6 160 .a0,
    .sd .a7 168 .a0,
    .sd .s2 176 .a0,
    .sd .s3 184 .a0,
    .sd .s4 192 .a0,
    .sd .s5 200 .a0,
    .sd .s6 208 .a0,
    .sd .s7 216 .a0,
    .sd .s8 224 .a0,
    .sd .s9 232 .a0,
    .sd .s10 240 .a0,
    .sd .s11 248 .a0,
    .sd .t3 256 .a0,
    .sd .t4 264 .a0,
    .sd .t5 272 .a0,
    .sd .t6 280 .a0,
    .csrrSscratch .t0,
    .sd .t0 112 .a0,
    .ld .sp 8 .a0,
    .ld .tp 32 .a0,
    .ld .t0 16 .a0,
    .ld .t1 0 .a0,
    .sfenceVma,
    .csrwSatp .t1,
    .sfenceVma,
    .jalr .t0]

def userret : List Asm :=
  [.sfenceVma,
    .csrwSatp .a0,
    .sfenceVma,
    .li .a0 trapframeAddress,
    .ld .ra 40 .a0,
    .ld .sp 48 .a0,
    .ld .gp 56 .a0,
    .ld .tp 64 .a0,
    .ld .t0 72 .a0,
    .ld .t1 80 .a0,
    .ld .t2 88 .a0,
    .ld .s0 96 .a0,
    .ld .s1 104 .a0,
    .ld .a1 120 .a0,
    .ld .a2 128 .a0,
    .ld .a3 136 .a0,
    .ld .a4 144 .a0,
    .ld .a5 152 .a0,
    .ld .a6 160 .a0,
    .ld .a7 168 .a0,
    .ld .s2 176 .a0,
    .ld .s3 184 .a0,
    .ld .s4 192 .a0,
    .ld .s5 200 .a0,
    .ld .s6 208 .a0,
    .ld .s7 216 .a0,
    .ld .s8 224 .a0,
    .ld .s9 232 .a0,
    .ld .s10 240 .a0,
    .ld .s11 248 .a0,
    .ld .t3 256 .a0,
    .ld .t4 264 .a0,
    .ld .t5 272 .a0,
    .ld .t6 280 .a0,
    .ld .a0 112 .a0,
    .sret]

/-! ## The listings against the struct -/

/-- The registers that are saved under their own names, in the order of both listings. -/
def plainRegs : List Reg :=
  [.ra, .sp, .gp, .tp, .t0, .t1, .t2, .s0, .s1, .a1, .a2, .a3, .a4, .a5, .a6, .a7,
    .s2, .s3, .s4, .s5, .s6, .s7, .s8, .s9, .s10, .s11, .t3, .t4, .t5, .t6]

def Reg.save (r : Reg) : Asm := .sd r (Field.saved r).offset .a0

def Reg.restore (r : Reg) : Asm := .ld r (Field.saved r).offset .a0

theorem uservec_eq : uservec =
    .csrwSscratch .a0 :: .li .a0 trapframeVa :: (plainRegs.map Reg.save ++
      [.csrrSscratch .t0, .sd .t0 (Field.saved .a0).offset .a0,
        .ld .sp Field.kernelSp.offset .a0, .ld .tp Field.kernelHartid.offset .a0,
        .ld .t0 Field.kernelTrap.offset .a0, .ld .t1 Field.kernelSatp.offset .a0,
        .sfenceVma, .csrwSatp .t1, .sfenceVma, .jalr .t0]) := rfl

theorem userret_eq : userret =
    .sfenceVma :: .csrwSatp .a0 :: .sfenceVma :: .li .a0 trapframeVa ::
      (plainRegs.map Reg.restore ++ [.ld .a0 (Field.saved .a0).offset .a0, .sret]) := rfl

theorem mem_plainRegs {r : Reg} : r ∈ plainRegs ↔ r ≠ .a0 := by
  cases r <;> decide

theorem Field.mem_fields (f : Field) : f ∈ trapframeFields := by
  cases f with
  | saved r => cases r <;> decide
  | kernelSatp | kernelSp | kernelTrap | epc | kernelHartid => decide

theorem Field.idxOf_lt (f : Field) : trapframeFields.idxOf f < 36 :=
  List.idxOf_lt_length_iff.mpr f.mem_fields

theorem Field.offset_inj {f g : Field} (heq : f.offset = g.offset) : f = g := by
  have hf := f.idxOf_lt
  have hg := g.idxOf_lt
  have hnat := congrArg BitVec.toNat heq
  simp only [offset, BitVec.toNat_ofNat] at hnat
  refine (List.idxOf_inj f.mem_fields).mp ?_
  omega

theorem Field.page (f : Field) : pgRoundDown (trapframeVa + f.offset) = trapframeVa ∧
    (trapframeVa + f.offset) &&& 0xfff = f.offset := by
  cases f with
  | saved r => cases r <;> decide
  | kernelSatp | kernelSp | kernelTrap | epc | kernelHartid => decide

/-! ## Saving and restoring -/

namespace Hart

variable {mmu mmu' : Mmu} {link link' page : Word} {c : Hart} {is : List Asm} {rs : List Reg}
  {f : Field} {r : Reg}

theorem setReg_self (value : Word) : (c.setReg r value).regs r = value :=
  Function.update_self ..

theorem setReg_other {r' : Reg} {value : Word} (hne : r' ≠ r) :
    (c.setReg r value).regs r' = c.regs r' :=
  Function.update_of_ne hne ..

theorem physical_field (hmap : mmu c.satp trapframeVa = some page) (f : Field) :
    c.physical mmu (trapframeVa + f.offset) = some (page + f.offset) := by
  obtain ⟨hpage, hoffset⟩ := f.page
  rw [physical, hpage, hmap, Option.map_some, hoffset]

theorem run_sd (hmap : mmu c.satp trapframeVa = some page) (hbase : c.regs .a0 = trapframeVa) :
    c.run mmu link (.sd r f.offset .a0 :: is) =
      run mmu link is { c with memory := Function.update c.memory (page + f.offset) (c.regs r) } := by
  simp only [run, exec, hbase, physical_field hmap, Option.bind_eq_bind, Option.bind_some]

theorem run_ld (hmap : mmu c.satp trapframeVa = some page) (hbase : c.regs .a0 = trapframeVa) :
    c.run mmu link (.ld r f.offset .a0 :: is) =
      (c.setReg r (c.memory (page + f.offset))).run mmu link is := by
  simp only [run, exec, hbase, physical_field hmap, Option.bind_eq_bind, Option.bind_some]

theorem run_csrwSscratch : c.run mmu link (.csrwSscratch r :: is) =
    run mmu link is { c with sscratch := c.regs r } := rfl

theorem run_csrrSscratch : c.run mmu link (.csrrSscratch r :: is) =
    (c.setReg r c.sscratch).run mmu link is := rfl

theorem run_csrwSatp : c.run mmu link (.csrwSatp r :: is) =
    run mmu link is { c with satp := c.regs r } := rfl

theorem run_sfenceVma : c.run mmu link (.sfenceVma :: is) = c.run mmu link is := rfl

theorem run_li (value : Word) : c.run mmu link (.li r value :: is) =
    (c.setReg r value).run mmu link is := rfl

theorem run_jalr : c.run mmu link [.jalr r] =
    some { c.setReg .ra link with target := some (c.regs r) } := rfl

theorem run_sret : c.run mmu link [.sret] = some { c with target := some c.sepc } := rfl

theorem field_ne {f g : Field} (hne : f ≠ g) (page : Word) : page + f.offset ≠ page + g.offset :=
  fun heq => hne (Field.offset_inj (add_left_cancel heq))

/-- What memory is after the registers `rs` have been saved. -/
structure Saved (page : Word) (rs : List Reg) (c : Hart) (memory : Word → Word) : Prop where
  saved : ∀ r ∈ rs, memory (page + (Field.saved r).offset) = c.regs r
  other : ∀ a, (∀ r ∈ rs, a ≠ page + (Field.saved r).offset) → memory a = c.memory a

theorem run_saves (hmap : mmu c.satp trapframeVa = some page) (hbase : c.regs .a0 = trapframeVa)
    (rs : List Reg) : ∃ memory, Saved page rs c memory ∧
      c.run mmu link (rs.map Reg.save ++ is) = run mmu link is { c with memory } := by
  induction rs generalizing c with
  | nil => exact ⟨c.memory, ⟨nofun, fun _ _ => rfl⟩, rfl⟩
  | cons r rs ih =>
      let c₁ : Hart := { c with
        memory := Function.update c.memory (page + (Field.saved r).offset) (c.regs r) }
      obtain ⟨memory, stored, hrun⟩ := ih (c := c₁) hmap hbase
      refine ⟨memory, ⟨fun r' hr' => ?_, fun a ha => ?_⟩, (run_sd hmap hbase).trans hrun⟩
      · by_cases hmem : r' ∈ rs
        · exact stored.saved r' hmem
        · obtain rfl := (List.mem_cons.mp hr').resolve_right hmem
          refine (stored.other _ fun r hr => field_ne ?_ page).trans (Function.update_self ..)
          rintro ⟨⟩
          exact hmem hr
      · rw [List.forall_mem_cons] at ha
        exact (stored.other a ha.2).trans (Function.update_of_ne ha.1 ..)

theorem run_restores (hmap : mmu c.satp trapframeVa = some page)
    (hbase : c.regs .a0 = trapframeVa) (hrs : .a0 ∉ rs) : ∃ regs : Reg → Word,
      (∀ r ∈ rs, regs r = c.memory (page + (Field.saved r).offset)) ∧
      (∀ r, r ∉ rs → regs r = c.regs r) ∧
      c.run mmu link (rs.map Reg.restore ++ is) = run mmu link is { c with regs } := by
  induction rs generalizing c with
  | nil => exact ⟨c.regs, nofun, fun _ _ => rfl, rfl⟩
  | cons r rs ih =>
      rw [List.mem_cons, not_or] at hrs
      obtain ⟨regs, hloaded, hkept, hrun⟩ :=
        ih (c := c.setReg r (c.memory (page + (Field.saved r).offset))) hmap
          ((setReg_other hrs.1).trans hbase) hrs.2
      refine ⟨regs, fun r' hr' => ?_, fun r' hr' => ?_, (run_ld hmap hbase).trans hrun⟩
      · by_cases hmem : r' ∈ rs
        · exact hloaded r' hmem
        · obtain rfl := (List.mem_cons.mp hr').resolve_right hmem
          exact (hkept r' hmem).trans (setReg_self _)
      · rw [List.mem_cons, not_or] at hr'
        exact (hkept r' hr'.2).trans (setReg_other hr'.1)

/-- What `uservec` leaves of the hart `c` that trapped. -/
structure Trapped (page : Word) (c c' : Hart) : Prop where
  saved : ∀ r, c'.memory (page + (Field.saved r).offset) = c.regs r
  kept : ∀ a, (∀ r, a ≠ page + (Field.saved r).offset) → c'.memory a = c.memory a
  sp : c'.regs .sp = c.memory (page + Field.kernelSp.offset)
  tp : c'.regs .tp = c.memory (page + Field.kernelHartid.offset)
  target : c'.target = some (c.memory (page + Field.kernelTrap.offset))
  satp : c'.satp = c.memory (page + Field.kernelSatp.offset)

theorem Trapped.fields {c' : Hart} (trapped : Trapped page c c') (hf : ∀ r, f ≠ .saved r) :
    c'.memory (page + f.offset) = c.memory (page + f.offset) :=
  trapped.kept _ fun r => field_ne (hf r) page

/-- The end of `uservec`, after the registers but `a0` have been saved. -/
def entry : List Asm :=
  [.csrrSscratch .t0, .sd .t0 (Field.saved .a0).offset .a0,
    .ld .sp Field.kernelSp.offset .a0, .ld .tp Field.kernelHartid.offset .a0,
    .ld .t0 Field.kernelTrap.offset .a0, .ld .t1 Field.kernelSatp.offset .a0,
    .sfenceVma, .csrwSatp .t1, .sfenceVma, .jalr .t0]

theorem run_entry (hmap : mmu c.satp trapframeVa = some page) (hbase : c.regs .a0 = trapframeVa) :
    ∃ c', c.run mmu link entry = some c' ∧
      c'.memory = Function.update c.memory (page + (Field.saved .a0).offset) c.sscratch ∧
      c'.regs .sp = c.memory (page + Field.kernelSp.offset) ∧
      c'.regs .tp = c.memory (page + Field.kernelHartid.offset) ∧
      c'.target = some (c.memory (page + Field.kernelTrap.offset)) ∧
      c'.satp = c.memory (page + Field.kernelSatp.offset) := by
  let memory := Function.update c.memory (page + (Field.saved .a0).offset) c.sscratch
  have hmemory : ∀ f : Field, f ≠ .saved .a0 →
      memory (page + f.offset) = c.memory (page + f.offset) :=
    fun f hne => Function.update_of_ne (field_ne hne page) ..
  let c₁ : Hart := { c.setReg .t0 c.sscratch with memory }
  let c₂ := c₁.setReg .sp (memory (page + Field.kernelSp.offset))
  let c₃ := c₂.setReg .tp (memory (page + Field.kernelHartid.offset))
  let c₄ := c₃.setReg .t0 (memory (page + Field.kernelTrap.offset))
  let c₅ := c₄.setReg .t1 (memory (page + Field.kernelSatp.offset))
  have h₀ : (c.setReg .t0 c.sscratch).regs .a0 = trapframeVa :=
    (setReg_other (by decide)).trans hbase
  have h₁ : c₁.regs .a0 = trapframeVa := h₀
  have h₂ : c₂.regs .a0 = trapframeVa := (setReg_other (by decide)).trans h₁
  have h₃ : c₃.regs .a0 = trapframeVa := (setReg_other (by decide)).trans h₂
  have h₄ : c₄.regs .a0 = trapframeVa := (setReg_other (by decide)).trans h₃
  have hrun : c.run mmu link entry = some { { c₅ with satp := c₅.regs .t1 }.setReg .ra link with
      target := some (c₅.regs .t0) } := by
    have hstore : (c.setReg .t0 c.sscratch).regs .t0 = c.sscratch := setReg_self _
    rw [entry, run_csrrSscratch, run_sd (c := c.setReg .t0 c.sscratch) hmap h₀,
      hstore]
    change c₁.run mmu link _ = _
    rw [run_ld (c := c₁) hmap h₁]
    change c₂.run mmu link _ = _
    rw [run_ld (c := c₂) hmap h₂]
    change c₃.run mmu link _ = _
    rw [run_ld (c := c₃) hmap h₃]
    change c₄.run mmu link _ = _
    rw [run_ld (c := c₄) hmap h₄, run_sfenceVma, run_csrwSatp, run_sfenceVma, run_jalr]
    rfl
  have hlinked : ∀ r, r ≠ .ra → (c₅.setReg .ra link).regs r = c₅.regs r :=
    fun _ hne => setReg_other hne
  have hsp : c₅.regs .sp = memory (page + Field.kernelSp.offset) := rfl
  have htp : c₅.regs .tp = memory (page + Field.kernelHartid.offset) := rfl
  have ht0 : c₅.regs .t0 = memory (page + Field.kernelTrap.offset) := rfl
  have ht1 : c₅.regs .t1 = memory (page + Field.kernelSatp.offset) := rfl
  refine ⟨_, hrun, rfl, ?_, ?_, ?_, ?_⟩
  · exact ((hlinked .sp (by decide)).trans hsp).trans (hmemory _ nofun)
  · exact ((hlinked .tp (by decide)).trans htp).trans (hmemory _ nofun)
  · exact congrArg some (ht0.trans (hmemory _ nofun))
  · exact ht1.trans (hmemory _ nofun)

theorem run_uservec (hmap : mmu c.satp trapframeVa = some page) :
    ∃ c', c.run mmu link uservec = some c' ∧ Trapped page c c' := by
  let c₁ : Hart := { c with sscratch := c.regs .a0 }.setReg .a0 trapframeVa
  have hbase : c₁.regs .a0 = trapframeVa := setReg_self _
  obtain ⟨memory, stored, hrun⟩ : ∃ memory, Saved page plainRegs c₁ memory ∧
      c₁.run mmu link (plainRegs.map Reg.save ++ entry) =
        run mmu link entry { c₁ with memory } := run_saves (c := c₁) hmap hbase plainRegs
  let c₂ : Hart := { c₁ with memory }
  obtain ⟨c', hentry, hmemory, hsp, htp, htarget, hsatp⟩ := run_entry (c := c₂) hmap hbase
  have hkept : ∀ f : Field, (∀ r, f ≠ .saved r) →
      memory (page + f.offset) = c.memory (page + f.offset) :=
    fun f hf => stored.other _ fun r _ => field_ne (hf r) page
  have hall : c.run mmu link uservec = some c' := by
    rw [uservec_eq, run_csrwSscratch, run_li]
    exact hrun.trans hentry
  refine ⟨c', hall, fun r => ?_, fun a ha => ?_, hsp.trans (hkept _ nofun),
    htp.trans (hkept _ nofun), htarget.trans (congrArg some (hkept _ nofun)),
    hsatp.trans (hkept _ nofun)⟩
  · rw [hmemory]
    by_cases heq : r = .a0
    · subst heq
      exact Function.update_self ..
    · have hne : Field.saved r ≠ .saved .a0 := fun h => heq (Field.saved.inj h)
      have hsaved := stored.saved r (mem_plainRegs.mpr heq)
      exact (Function.update_of_ne (field_ne hne page) ..).trans
        (hsaved.trans (setReg_other heq))
  · rw [hmemory]
    exact (Function.update_of_ne (ha .a0) ..).trans (stored.other a fun r _ => ha r)

/-- Entered with the user's `satp` in `a0`, `userret` loads the saved registers. -/
theorem run_userret (hmap : mmu (c.regs .a0) trapframeVa = some page) :
    ∃ c', c.run mmu link userret = some c' ∧
      (∀ r, c'.regs r = c.memory (page + (Field.saved r).offset)) ∧
      c'.satp = c.regs .a0 ∧ c'.target = some c.sepc := by
  let c₁ : Hart := { c with satp := c.regs .a0 }.setReg .a0 trapframeVa
  have hbase : c₁.regs .a0 = trapframeVa := setReg_self _
  have hplain : Reg.a0 ∉ plainRegs := by decide
  let rest : List Asm := [.ld .a0 (Field.saved .a0).offset .a0, .sret]
  obtain ⟨regs, hloaded, hkept, hrun⟩ : ∃ regs : Reg → Word,
      (∀ r ∈ plainRegs, regs r = c₁.memory (page + (Field.saved r).offset)) ∧
      (∀ r, r ∉ plainRegs → regs r = c₁.regs r) ∧
      c₁.run mmu link (plainRegs.map Reg.restore ++ rest) = run mmu link rest { c₁ with regs } :=
    run_restores (c := c₁) hmap hbase hplain
  let c₂ : Hart := { c₁ with regs }
  have hbase₂ : c₂.regs .a0 = trapframeVa := (hkept .a0 hplain).trans hbase
  let c₃ := c₂.setReg .a0 (c.memory (page + (Field.saved .a0).offset))
  have hall : c.run mmu link userret = some { c₃ with target := some c.sepc } := by
    rw [userret_eq, run_sfenceVma, run_csrwSatp, run_sfenceVma, run_li]
    refine hrun.trans ?_
    change c₂.run mmu link [.ld .a0 (Field.saved .a0).offset .a0, .sret] = _
    rw [run_ld (c := c₂) hmap hbase₂, run_sret]
    rfl
  refine ⟨_, hall, fun r => ?_, rfl, rfl⟩
  change c₃.regs r = _
  by_cases heq : r = .a0
  · subst heq
    exact setReg_self _
  · exact (setReg_other heq).trans (hloaded r (mem_plainRegs.mpr heq))

/-- `uservec` saves every register where the struct has it, and `userret` brings all of
them back, whatever happened in between to anything but the saved registers. -/
theorem userret_inverts_uservec (hmap : mmu c.satp trapframeVa = some page) :
    ∃ c', c.run mmu link uservec = some c' ∧ Trapped page c c' ∧
      (∀ f : Field, (∀ r, f ≠ .saved r) →
        c'.memory (page + f.offset) = c.memory (page + f.offset)) ∧
      ∀ k : Hart, mmu' (k.regs .a0) trapframeVa = some page →
        (∀ r, k.memory (page + (Field.saved r).offset) =
          c'.memory (page + (Field.saved r).offset)) →
        ∃ k', k.run mmu' link' userret = some k' ∧ k'.regs = c.regs ∧
          k'.satp = k.regs .a0 ∧ k'.target = some k.sepc := by
  obtain ⟨c', hrun, trapped⟩ := run_uservec hmap
  refine ⟨c', hrun, trapped, fun f hf => trapped.fields hf, fun k hmap' hkept => ?_⟩
  obtain ⟨k', hrun', hregs, hsatp, htarget⟩ := run_userret hmap'
  refine ⟨k', hrun', funext fun r => ?_, hsatp, htarget⟩
  rw [hregs, hkept, trapped.saved]

def sampleMmu : Mmu := fun _ va => some va

/-- Every register has a value of its own. -/
def sampleTrapped : Hart := ⟨fun r => (Field.saved r).offset, fun _ => 0, 0, 1, 2, none⟩

/-- What the kernel makes of `c` before `userret`: it has used all registers, sent the process
on and written `epc`. -/
def sampleKernel (c : Hart) : Hart :=
  { c with
    regs := Function.update (fun _ => 0) .a0 1
    memory := Function.update c.memory (trapframeVa + Field.epc.offset) 6
    sepc := 6 }

theorem userret_inverts_uservec_sample : ∃ c' k' : Hart,
    Function.Injective sampleTrapped.regs ∧ sampleTrapped.run sampleMmu 0 uservec = some c' ∧
      (sampleKernel c').run sampleMmu 0 userret = some k' ∧ k'.regs = sampleTrapped.regs ∧
      k'.target = some 6 := by
  obtain ⟨c', hrun, -, -, hback⟩ :=
    @userret_inverts_uservec sampleMmu sampleMmu 0 0 trapframeVa sampleTrapped rfl
  have hkept : ∀ r, (sampleKernel c').memory (trapframeVa + (Field.saved r).offset) =
      c'.memory (trapframeVa + (Field.saved r).offset) := fun r =>
    Function.update_of_ne (by cases r <;> decide) ..
  obtain ⟨k', hrun', hregs, -, htarget⟩ := hback (sampleKernel c') rfl hkept
  exact ⟨c', k', fun r r' heq => Field.saved.inj (Field.offset_inj heq), hrun, hrun', hregs,
    htarget⟩

end Hart

end Xv6Kernel.Process
