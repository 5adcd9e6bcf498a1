import Xv6Kernel.Process.Activations

/-!
# Preemption is transparent

The stack of every context is a list of activations, each of which gets back what it left
when those above it are gone.  The invariant says so of the context that runs, and of every
other one from its saved registers.
-/

namespace Xv6Kernel.Process.Registers

open Xv6Kernel.Mm Relation

variable {T : Text} {L : Placement} {lo hi : Nat} {f g : Func} {e regs regs' : Regs}
  {memory memory' : Cells} {pc : Word} {acts : List Activation} {b : Block}

/-! ## One stack -/

/-- The registers after a call of `f` that began with `e`. -/
structure Kept (f : Func) (e regs : Regs) : Prop where
  sp : regs (.gpr .sp) = e (.gpr .sp)
  gpr : ∀ r, kept r = true → regs (.gpr r) = e (.gpr r)
  csr : f.trap = true → regs .sepc = e .sepc ∧ regs .sstatus = e .sstatus

/-- Where a call of `f` stands. -/
def Calls (lo : Nat) (f : Func) (e regs : Regs) (memory : Cells) : Block → Prop
  | .entering g [] | .body g | .calling g _ | .switching g =>
      g = f ∧ Based lo f.toStackFrame e regs ∧ Held f.toStackFrame e memory f.slots
  | .entering g (i :: is) =>
      g = f ∧ Opening lo f.toStackFrame e (i :: is) regs memory ∧
        (f.trap = true → sie (regs .sstatus) = false)
  | .leaving g is =>
      g = f ∧ f.endless = false ∧ Closing lo f.toStackFrame f.slots e is regs memory ∧
        (f.trap = true → sie (regs .sstatus) = false)
  | _ => False

/-- Where `kernelvec` stands. -/
def Traps (lo : Nat) (e regs : Regs) (memory : Cells) : Block → Prop
  | .saving is => Opening lo kernelvecFrame e is regs memory
  | .restoring is => Closing lo kernelvecFrame kernelvecReloads e is regs memory
  | _ => False

/-- Running on from here gives every activation back what it expects. -/
def Valid (T : Text) (lo hi : Nat) : List Activation → Regs → Word → Cells → Prop
  | [], _, _, _ => False
  | .call f e :: acts, regs, pc, memory =>
      lo ≤ (e (.gpr .sp)).toNat ∧ (e (.gpr .sp)).toNat ≤ hi ∧
        (f.trap = true → sie (e .sstatus) = false) ∧ Unspilled f.toStackFrame e regs ∧
        Calls lo f e regs memory (T.block pc) ∧
        (f.endless = true ∨
          ∀ regs', Kept f e regs' → Valid T lo hi acts regs' (e (.gpr .ra)) memory)
  | .trap e pc₀ memory₀ :: acts, regs, pc, memory =>
      sie (e .sstatus) = true ∧ sie (regs .sstatus) = false ∧
        spie (regs .sstatus) = true ∧ regs .sepc = pc₀ ∧
        Unspilled kernelvecFrame e regs ∧ Traps lo e regs memory (T.block pc) ∧
        (∀ a : Word, (e (.gpr .sp)).toNat ≤ a.toNat → a.toNat < hi → memory a = memory₀ a) ∧
        Valid T lo hi acts e pc₀ memory

theorem Block.In.calls (hin : b.In f) (hbased : Based lo f.toStackFrame e regs)
    (hheld : Held f.toStackFrame e memory f.slots) : Calls lo f e regs memory b := by
  cases b with
  | entering g is =>
      cases is with
      | nil => exact ⟨hin, hbased, hheld⟩
      | cons i is => exact hin.elim
  | body g | calling g t | switching g => exact ⟨hin, hbased, hheld⟩
  | leaving g is => exact hin.elim
  | saving is | restoring is => exact hin.elim

theorem Calls.of_in (calls : Calls lo f e regs memory b) (hin : b.In g) :
    g = f ∧ Based lo f.toStackFrame e regs ∧ Held f.toStackFrame e memory f.slots := by
  cases b with
  | entering g' is =>
      cases is with
      | nil => exact ⟨hin ▸ calls.1, calls.2⟩
      | cons i is => exact hin.elim
  | body g' | calling g' t | switching g' => exact ⟨hin ▸ calls.1, calls.2⟩
  | leaving g' is => exact hin.elim
  | saving is | restoring is => exact hin.elim

theorem Opening.frame {fr : StackFrame} {is : List Insn}
    (opening : Opening lo fr e is regs memory) :
    (regs (.gpr .sp)).toNat = (e (.gpr .sp)).toNat ∨ Based lo fr e regs := by
  cases opening with
  | start sp same => exact .inl (congrArg BitVec.toNat sp)
  | storing stored todo split based held same => exact .inr based

theorem Opening.done {fr : StackFrame} (opening : Opening lo fr e [] regs memory) :
    Based lo fr e regs ∧ Held fr e memory fr.slots := by
  generalize hnil : ([] : List Insn) = is at opening
  cases opening with
  | start sp same => cases hnil
  | storing stored todo split based held same =>
      obtain rfl : todo = [] := List.map_eq_nil_iff.mp hnil.symm
      rw [List.append_nil] at split
      exact ⟨based, split ▸ held⟩

theorem Closing.frame {fr : StackFrame} {slots : List (XReg × Nat)} {is : List Insn}
    (closing : Closing lo fr slots e is regs memory) :
    (regs (.gpr .sp)).toNat = (e (.gpr .sp)).toNat ∨ Based lo fr e regs := by
  cases closing with
  | loading loaded todo split based held same => exact .inr based
  | closed sp same => exact .inl (congrArg BitVec.toNat sp)

theorem Closing.done {fr : StackFrame} {slots : List (XReg × Nat)}
    (closing : Closing lo fr slots e [] regs memory) :
    regs (.gpr .sp) = e (.gpr .sp) ∧ ∀ slot ∈ slots, regs slot.1 = e slot.1 := by
  generalize hnil : ([] : List Insn) = is at closing
  cases closing with
  | loading loaded todo split based held same => simp [StackFrame.closes] at hnil
  | closed sp same => exact ⟨sp, same⟩

/-- A frame lies between the stack pointer now and the one at its entry. -/
theorem sp_le_of_frame {fr : StackFrame} (hlo : lo ≤ (e (.gpr .sp)).toNat)
    (hframe : (regs (.gpr .sp)).toNat = (e (.gpr .sp)).toNat ∨ Based lo fr e regs) :
    lo ≤ (regs (.gpr .sp)).toNat ∧ (regs (.gpr .sp)).toNat ≤ (e (.gpr .sp)).toNat := by
  rcases hframe with heq | hbased
  · omega
  · have hsp := hbased.sp_toNat
    have hroom := hbased.room
    omega

theorem Calls.frame (calls : Calls lo f e regs memory b) :
    (regs (.gpr .sp)).toNat = (e (.gpr .sp)).toNat ∨ Based lo f.toStackFrame e regs := by
  cases b with
  | entering g is =>
      cases is with
      | nil => exact .inr calls.2.1
      | cons i is => exact calls.2.1.frame
  | body g | calling g t | switching g => exact .inr calls.2.1
  | leaving g is => exact calls.2.2.1.frame
  | saving is | restoring is => exact calls.elim

theorem Traps.frame (traps : Traps lo e regs memory b) :
    (regs (.gpr .sp)).toNat = (e (.gpr .sp)).toNat ∨ Based lo kernelvecFrame e regs := by
  cases b with
  | saving is => exact Opening.frame traps
  | restoring is => exact Closing.frame traps
  | entering g is | leaving g is => cases is <;> exact traps.elim
  | body g | calling g t | switching g => exact traps.elim

theorem Valid.sp_range (valid : Valid T lo hi acts regs pc memory) :
    lo ≤ (regs (.gpr .sp)).toNat ∧ (regs (.gpr .sp)).toNat ≤ hi := by
  induction acts generalizing regs pc with
  | nil => exact valid.elim
  | cons act acts ih =>
      cases act with
      | call f e =>
          obtain ⟨hlo, hhi, -, -, calls, -⟩ := valid
          have hsp := sp_le_of_frame hlo calls.frame
          exact ⟨hsp.1, hsp.2.trans hhi⟩
      | trap e pc₀ memory₀ =>
          obtain ⟨-, -, -, -, -, traps, -, hbelow⟩ := valid
          obtain ⟨hlo, hhi⟩ := ih hbelow
          have hsp := sp_le_of_frame hlo traps.frame
          exact ⟨hsp.1, hsp.2.trans hhi⟩

/-- The slots of a frame are the cells that it needs from the stack pointer on. -/
def SameSlots (fr : StackFrame) (e regs : Regs) (memory memory' : Cells) : Prop :=
  ∀ slot ∈ fr.slots, (regs (.gpr .sp)).toNat ≤ (fr.cell (e (.gpr .sp)) slot).toNat →
    (fr.cell (e (.gpr .sp)) slot).toNat < (e (.gpr .sp)).toNat →
    memory' (fr.cell (e (.gpr .sp)) slot) = memory (fr.cell (e (.gpr .sp)) slot)

theorem Held.of_same {fr : StackFrame} (hheld : Held fr e memory fr.slots)
    (hbased : Based lo fr e regs) (hsame : SameSlots fr e regs memory memory') :
    Held fr e memory' fr.slots := by
  intro slot hslot
  obtain ⟨hsp, hcell⟩ := hbased.cell_range hslot
  have hinside := fr.inside slot hslot
  rw [hsame slot hslot (by omega) (by omega)]
  exact hheld slot hslot

theorem Calls.of_memory (calls : Calls lo f e regs memory b)
    (hsame : SameSlots f.toStackFrame e regs memory memory') :
    Calls lo f e regs memory' b := by
  cases b with
  | entering g is =>
      cases is with
      | nil => exact ⟨calls.1, calls.2.1, calls.2.2.of_same calls.2.1 hsame⟩
      | cons i is =>
          exact ⟨calls.1, calls.2.1.of_same rfl (fun _ _ => rfl) hsame, calls.2.2⟩
  | body g | calling g t | switching g =>
      exact ⟨calls.1, calls.2.1, calls.2.2.of_same calls.2.1 hsame⟩
  | leaving g is =>
      exact ⟨calls.1, calls.2.1,
        calls.2.2.1.of_same (List.Subset.refl _) rfl (fun _ _ => rfl) hsame, calls.2.2.2⟩
  | saving is | restoring is => exact calls.elim

theorem Traps.of_memory (traps : Traps lo e regs memory b)
    (hsame : SameSlots kernelvecFrame e regs memory memory') :
    Traps lo e regs memory' b := by
  cases b with
  | saving is => exact Opening.of_same traps rfl (fun _ _ => rfl) hsame
  | restoring is => exact Closing.of_same traps kernelvecReloads_sub rfl (fun _ _ => rfl) hsame
  | entering g is | leaving g is => cases is <;> exact traps.elim
  | body g | calling g t | switching g => exact traps.elim

/-- The cells below the stack pointer and those that are not guarded do not matter. -/
theorem Valid.of_memory (valid : Valid T lo hi acts regs pc memory)
    (hsame : ∀ a : Word, (regs (.gpr .sp)).toNat ≤ a.toNat → a.toNat < hi →
      Guarded acts a → memory' a = memory a) : Valid T lo hi acts regs pc memory' := by
  induction acts generalizing regs pc with
  | nil => exact valid.elim
  | cons act acts ih =>
      cases act with
      | call f e =>
          obtain ⟨hlo, hhi, hentry, hunspilled, calls, hback⟩ := valid
          have hsp := sp_le_of_frame hlo calls.frame
          refine ⟨hlo, hhi, hentry, hunspilled, calls.of_memory fun slot hslot hge hlt =>
            hsame _ hge (by omega) (.inl ⟨slot, hslot, rfl⟩), hback.imp_right ?_⟩
          intro hback regs' kept
          refine ih (hback regs' kept) fun a hge hlt hguarded => hsame a ?_ hlt (.inr hguarded)
          rw [kept.sp] at hge
          omega
      | trap e pc₀ memory₀ =>
          obtain ⟨hon, hoff, hspie, hsepc, hunspilled, traps, hstack, hbelow⟩ := valid
          obtain ⟨hlo, hhi⟩ := hbelow.sp_range
          have hsp := sp_le_of_frame hlo traps.frame
          have hown : ∀ a : Word, (e (.gpr .sp)).toNat ≤ a.toNat → a.toNat < hi →
              memory' a = memory a := fun a hge hlt => hsame a (by omega) hlt (.inr hge)
          exact ⟨hon, hoff, hspie, hsepc, hunspilled,
            traps.of_memory fun slot hslot hge hlt =>
              hsame _ hge (by omega) (.inl ⟨slot, hslot, rfl⟩),
            fun a hge hlt => (hown a hge hlt).trans (hstack a hge hlt),
            ih hbelow fun a hge hlt _ => hown a hge hlt⟩

theorem Func.slot_kept (f : Func) (htrap : f.trap = false) {slot : XReg × Nat}
    (hslot : slot ∈ f.slots) : ∃ r, kept r = true ∧ slot.1 = .gpr r := by
  rcases f.spills slot hslot with hkept | ⟨htrap', -⟩
  · exact hkept
  · exact absurd (htrap.symm.trans htrap') (by decide)

/-- Code that can be interrupted does not care for `tp`, `sepc` and `sstatus`. -/
theorem Valid.of_regs (valid : Valid T lo hi acts regs pc memory)
    (hon : sie (regs .sstatus) = true)
    (hregs : ∀ r, r ≠ .tp → regs' (.gpr r) = regs (.gpr r)) :
    Valid T lo hi acts regs' pc memory := by
  cases acts with
  | nil => exact valid.elim
  | cons act acts =>
      cases act with
      | trap e pc₀ memory₀ => exact absurd (hon.symm.trans valid.2.1) (by decide)
      | call f e =>
          obtain ⟨hlo, hhi, hentry, hunspilled, calls, hback⟩ := valid
          have hkept : ∀ r, kept r = true → regs' (.gpr r) = regs (.gpr r) :=
            fun r hr => hregs r (by rintro rfl; cases hr)
          have hsp : regs' (.gpr .sp) = regs (.gpr .sp) := hregs .sp (by decide)
          have hbased : Based lo f.toStackFrame e regs → Based lo f.toStackFrame e regs' :=
            fun based => ⟨hsp.trans based.sp, based.room⟩
          have hmasked : (f.trap = true → sie (regs .sstatus) = false) → f.trap = false := by
            cases f.trap with
            | false => exact fun _ => rfl
            | true => exact fun h => absurd (hon.symm.trans (h rfl)) (by decide)
          have hslots : f.trap = false → ∀ slot ∈ f.slots, regs' slot.1 = regs slot.1 := by
            intro htrap slot hslot
            obtain ⟨r, hr, heq⟩ := f.slot_kept htrap hslot
            rw [heq, hkept r hr]
          refine ⟨hlo, hhi, hentry,
            fun r hr hfree => (hkept r hr).trans (hunspilled r hr hfree), ?_,
            hback⟩
          generalize T.block pc = b at calls ⊢
          cases b with
          | entering g is =>
              cases is with
              | nil => exact ⟨calls.1, hbased calls.2.1, calls.2.2⟩
              | cons i is =>
                  obtain ⟨heq, opening, hmask⟩ := calls
                  have htrap := hmasked hmask
                  exact ⟨heq, opening.of_same hsp (hslots htrap) fun _ _ _ _ => rfl,
                    fun h => absurd (htrap.symm.trans h) (by decide)⟩
          | body g | calling g t | switching g =>
              exact ⟨calls.1, hbased calls.2.1, calls.2.2⟩
          | leaving g is =>
              obtain ⟨heq, hend, closing, hmask⟩ := calls
              have htrap := hmasked hmask
              exact ⟨heq, hend, closing.of_same (List.Subset.refl _) hsp (hslots htrap)
                fun _ _ _ _ => rfl, fun h => absurd (htrap.symm.trans h) (by decide)⟩
          | saving is | restoring is => exact calls.elim

/-! ## What one step does to the running stack -/

theorem Calls.next_entering {is : List Insn}
    (opening : Opening lo f.toStackFrame e is regs memory)
    (hmask : f.trap = true → sie (regs .sstatus) = false) :
    Calls lo f e regs memory (.entering f is) := by
  cases is with
  | nil => exact ⟨rfl, opening.done⟩
  | cons i is => exact ⟨rfl, opening, hmask⟩

section Straight

variable {i : Insn} {is : List Insn} {pc₀ : Word} {memory₀ : Cells}

/-- What is on the stack gets back what it expects after the instruction `i`, which writes
only between `lo` and `hi`. -/
def Advances (T : Text) (lo hi : Nat) (acts : List Activation) (regs : Regs) (pc : Word)
    (memory : Cells) (i : Insn) : Prop :=
  Valid T lo hi acts (i.exec (regs, memory)).1 (pc + 4) (i.exec (regs, memory)).2 ∧
    ∀ a, (i.exec (regs, memory)).2 a ≠ memory a → lo ≤ a.toNat ∧ a.toNat < hi

theorem Valid.entering_step (valid : Valid T lo hi (.call f e :: acts) regs pc memory)
    (hb : T.block pc = .entering g (i :: is)) (hbound : hi < 2 ^ 63)
    (hlow : lo ≤ ((i.exec (regs, memory)).1 (.gpr .sp)).toNat)
    (hhigh : ((i.exec (regs, memory)).1 (.gpr .sp)).toNat ≤ hi) :
    Advances T lo hi (.call f e :: acts) regs pc memory i := by
  obtain ⟨hlo, hhi, hentry, hunspilled, calls, hback⟩ := valid
  rw [hb] at calls
  obtain ⟨rfl, opening, hmask⟩ := calls
  obtain ⟨opening', hregs, hmemory⟩ := opening.step rfl hhi hbound hlow hhigh
  refine ⟨⟨hlo, hhi, hentry, fun r hr hfree => ?_, ?_, hback.imp_right ?_⟩, fun a ha => ?_⟩
  · rw [hregs _ (by rintro ⟨⟩; cases hr)]
    exact hunspilled r hr hfree
  · rw [T.entering_next hb]
    refine Calls.next_entering opening' fun htrap => ?_
    rw [hregs _ (by decide)]
    exact hmask htrap
  · intro hback regs' kept
    refine (hback regs' kept).of_memory fun a hge hlt _ => ?_
    rw [kept.sp] at hge
    by_contra hne
    have hrange := hmemory a hne
    omega
  · have hrange := hmemory a ha
    omega

theorem Valid.leaving_step (valid : Valid T lo hi (.call f e :: acts) regs pc memory)
    (hb : T.block pc = .leaving g (i :: is)) :
    Advances T lo hi (.call f e :: acts) regs pc memory i := by
  obtain ⟨hlo, hhi, hentry, hunspilled, calls, hback⟩ := valid
  rw [hb] at calls
  obtain ⟨rfl, hend, closing, hmask⟩ := calls
  obtain ⟨closing', hregs, hmemory⟩ := closing.step rfl (List.Subset.refl _)
  rw [Advances, hmemory]
  rw [hmemory] at closing'
  refine ⟨⟨hlo, hhi, hentry, fun r hr hfree => ?_, ?_, hback⟩, fun a ha => absurd rfl ha⟩
  · rcases hregs (.gpr r) (by rintro ⟨⟩; cases hr) with hsame | ⟨⟨s, hs, heq⟩, -⟩
    · exact hsame.trans (hunspilled r hr hfree)
    · exact absurd heq (hfree s hs)
  · rw [T.leaving_next hb]
    refine ⟨rfl, hend, closing', fun htrap => ?_⟩
    rcases hregs .sstatus (by decide) with hsame | ⟨-, hloaded⟩
    · exact hsame ▸ hmask htrap
    · exact hloaded ▸ hentry htrap

theorem Valid.saving_step (valid : Valid T lo hi (.trap e pc₀ memory₀ :: acts) regs pc memory)
    (hb : T.block pc = .saving (i :: is)) (hbound : hi < 2 ^ 63)
    (hlow : lo ≤ ((i.exec (regs, memory)).1 (.gpr .sp)).toNat)
    (hhigh : ((i.exec (regs, memory)).1 (.gpr .sp)).toNat ≤ hi) :
    Advances T lo hi (.trap e pc₀ memory₀ :: acts) regs pc memory i := by
  obtain ⟨hon, hoff, hspie, hsepc, hunspilled, traps, hstack, hbelow⟩ := valid
  obtain ⟨hlo, hhi⟩ := hbelow.sp_range
  rw [hb] at traps
  obtain ⟨opening', hregs, hmemory⟩ := Opening.step traps rfl hhi hbound hlow hhigh
  have hown : ∀ a : Word, (e (.gpr .sp)).toNat ≤ a.toNat → a.toNat < hi →
      (i.exec (regs, memory)).2 a = memory a := by
    intro a hge _
    by_contra hne
    have hrange := hmemory a hne
    omega
  refine ⟨⟨hon, ?_, ?_, ?_, fun r hr hfree => ?_, ?_, fun a hge hlt => ?_, ?_⟩, fun a ha => ?_⟩
  · rw [hregs _ (by decide)]
    exact hoff
  · rw [hregs _ (by decide)]
    exact hspie
  · rw [hregs _ (by decide)]
    exact hsepc
  · rw [hregs _ (by rintro ⟨⟩; cases hr)]
    exact hunspilled r hr hfree
  · rw [T.saving_next hb]
    exact opening'
  · exact (hown a hge hlt).trans (hstack a hge hlt)
  · exact hbelow.of_memory fun a hge hlt _ => hown a hge hlt
  · have hrange := hmemory a ha
    omega

/-- `kernelvec` reloads neither `sepc` nor `sstatus`. -/
theorem Closing.csr {x : XReg} (hx : x = .sepc ∨ x = .sstatus)
    (hsame : x ≠ .gpr .sp → regs' x = regs x ∨
      (∃ slot ∈ kernelvecReloads, slot.1 = x) ∧ regs' x = e x) : regs' x = regs x := by
  have hne : x ≠ .gpr .sp := by rcases hx with rfl | rfl <;> decide
  refine (hsame hne).resolve_right fun h => ?_
  obtain ⟨⟨slot, hslot, rfl⟩, -⟩ := h
  have hfree : ∀ slot ∈ kernelvecReloads, slot.1 ≠ .sepc ∧ slot.1 ≠ .sstatus := by decide
  exact hx.elim (hfree slot hslot).1 (hfree slot hslot).2

theorem Valid.restoring_step
    (valid : Valid T lo hi (.trap e pc₀ memory₀ :: acts) regs pc memory)
    (hb : T.block pc = .restoring (i :: is)) :
    Advances T lo hi (.trap e pc₀ memory₀ :: acts) regs pc memory i := by
  obtain ⟨hon, hoff, hspie, hsepc, hunspilled, traps, hstack, hbelow⟩ := valid
  rw [hb] at traps
  obtain ⟨closing', hregs, hmemory⟩ := Closing.step traps rfl kernelvecReloads_sub
  rw [Advances, hmemory]
  rw [hmemory] at closing'
  refine ⟨⟨hon, ?_, ?_, ?_, fun r hr hfree => ?_, ?_, hstack, hbelow⟩, fun a ha => absurd rfl ha⟩
  · rw [Closing.csr (.inr rfl) (hregs _)]
    exact hoff
  · rw [Closing.csr (.inr rfl) (hregs _)]
    exact hspie
  · rw [Closing.csr (.inl rfl) (hregs _)]
    exact hsepc
  · rcases hregs (.gpr r) (by rintro ⟨⟩; cases hr) with hsame | ⟨⟨s, hs, heq⟩, -⟩
    · exact hsame.trans (hunspilled r hr hfree)
    · exact absurd heq (hfree s (kernelvecReloads_sub hs))
  · rw [T.restoring_next hb]
    exact closing'

theorem Valid.straight (valid : Valid T lo hi acts regs pc memory)
    (hblock : (T.block pc).insn = some i) (hbound : hi < 2 ^ 63)
    (hlow : lo ≤ ((i.exec (regs, memory)).1 (.gpr .sp)).toNat)
    (hhigh : ((i.exec (regs, memory)).1 (.gpr .sp)).toNat ≤ hi) :
    Advances T lo hi acts regs pc memory i := by
  cases acts with
  | nil => exact valid.elim
  | cons act acts =>
      cases act with
      | call f e =>
          have calls := valid.2.2.2.2.1
          cases hb : T.block pc with
          | entering g is =>
              rw [hb] at hblock
              cases is with
              | nil => cases hblock
              | cons j is =>
                  cases hblock
                  exact valid.entering_step hb hbound hlow hhigh
          | leaving g is =>
              rw [hb] at hblock
              cases is with
              | nil => cases hblock
              | cons j is =>
                  cases hblock
                  exact valid.leaving_step hb
          | body g | calling g t | switching g => rw [hb] at hblock; cases hblock
          | saving is | restoring is => rw [hb] at calls; exact calls.elim
      | trap e pc₀ memory₀ =>
          have traps := valid.2.2.2.2.2.1
          cases hb : T.block pc with
          | saving is =>
              rw [hb] at hblock
              cases is with
              | nil => cases hblock
              | cons j is =>
                  cases hblock
                  exact valid.saving_step hb hbound hlow hhigh
          | restoring is =>
              rw [hb] at hblock
              cases is with
              | nil => cases hblock
              | cons j is =>
                  cases hblock
                  exact valid.restoring_step hb
          | entering g is | leaving g is =>
              rw [hb] at traps
              cases is <;> exact traps.elim
          | body g | calling g t | switching g => rw [hb] at traps; exact traps.elim

end Straight

/-- The code of a C function whose frame is open belongs to the topmost activation. -/
theorem Valid.in_call (valid : Valid T lo hi acts regs pc memory) (hin : (T.block pc).In f) :
    ∃ e rest, acts = .call f e :: rest ∧ Based lo f.toStackFrame e regs ∧
      Held f.toStackFrame e memory f.slots := by
  cases acts with
  | nil => exact valid.elim
  | cons act acts =>
      cases act with
      | call g e =>
          obtain ⟨-, -, -, -, calls, -⟩ := valid
          obtain ⟨rfl, hbased, hheld⟩ := calls.of_in hin
          exact ⟨e, acts, rfl, hbased, hheld⟩
      | trap e pc₀ memory₀ =>
          obtain ⟨-, -, -, -, -, traps, -⟩ := valid
          cases hb : T.block pc with
          | entering g is | leaving g is => rw [hb] at traps; cases is <;> exact traps.elim
          | body g | calling g t | switching g => rw [hb] at traps; exact traps.elim
          | saving is | restoring is => rw [hb] at hin; exact hin.elim

/-- C code goes on in its own function. -/
theorem Valid.compute {pc' : Word} (valid : Valid T lo hi acts regs pc memory)
    (hin : (T.block pc).In f)
    (hnext : (T.block pc').In f ∨ T.block pc' = .leaving f (f.closes f.slots) ∧
      f.endless = false ∧ (f.trap = true → sie (regs' .sstatus) = false))
    (hsp : regs' (.gpr .sp) = regs (.gpr .sp)) (hkept : Unspilled f.toStackFrame regs regs')
    (hmemory : ∀ a : Word, a.toNat < hi → Guarded acts a → memory' a = memory a) :
    Valid T lo hi acts regs' pc' memory' := by
  obtain ⟨e, rest, rfl, hbased, hheld⟩ := valid.in_call hin
  have valid' : Valid T lo hi (.call f e :: rest) regs pc memory' :=
    valid.of_memory fun a _ hlt hguarded => hmemory a hlt hguarded
  obtain ⟨hlo, hhi, hentry, hunspilled, calls, hback⟩ := valid'
  obtain ⟨-, -, hheld'⟩ := calls.of_in hin
  have hbased' : Based lo f.toStackFrame e regs' := ⟨hsp.trans hbased.sp, hbased.room⟩
  refine ⟨hlo, hhi, hentry, fun r hr hfree => (hkept r hr hfree).trans (hunspilled r hr hfree),
    ?_, hback⟩
  rcases hnext with hin' | ⟨hleave, hend, hmask⟩
  · exact hin'.calls hbased' hheld'
  · rw [hleave]
    exact ⟨rfl, hend, .loading [] f.slots rfl hbased' hheld' (by simp), hmask⟩

/-- The registers after `jal`. -/
theorem linked_of_ne (regs : Regs) (pc : Word) {x : XReg} (hx : x ≠ .gpr .ra) :
    Function.update regs (.gpr .ra) (pc + 4) x = regs x := Function.update_of_ne hx ..

/-- Once control is back behind a call, the caller goes on. -/
theorem Valid.behind {pc' : Word} (valid : Valid T lo hi acts regs pc memory)
    (hin : (T.block pc).In f) (hin' : (T.block pc').In f) (hra : f.Spills .ra)
    (hsp : regs' (.gpr .sp) = regs (.gpr .sp))
    (hkept : ∀ r, kept r = true → r ≠ .ra → regs' (.gpr r) = regs (.gpr r)) :
    Valid T lo hi acts regs' pc' memory := by
  refine valid.compute hin (.inl hin') hsp (fun r hr hfree => hkept r hr ?_) fun _ _ _ => rfl
  rintro rfl
  obtain ⟨slot, hslot, heq⟩ := hra
  exact hfree slot hslot heq

/-- A call of `g` from anywhere that goes on with what `g` gives back. -/
theorem Valid.push {t : Word} (hrange : lo ≤ (regs (.gpr .sp)).toNat ∧
      (regs (.gpr .sp)).toNat ≤ hi)
    (htarget : T.block t = .entering g g.opens)
    (hmask : g.trap = true → sie (regs .sstatus) = false)
    (hback : ∀ regs', Kept g regs regs' → Valid T lo hi acts regs' (regs (.gpr .ra)) memory) :
    Valid T lo hi (.call g regs :: acts) regs t memory := by
  refine ⟨hrange.1, hrange.2, hmask, fun _ _ _ => rfl, ?_, .inr hback⟩
  rw [htarget]
  exact Calls.next_entering (.start rfl fun _ _ => rfl) hmask

theorem Valid.call {t : Word} (valid : Valid T lo hi acts regs pc memory)
    (hblock : T.block pc = .calling f t) (htarget : T.block t = .entering g g.opens)
    (htrap : g.trap = false) :
    Valid T lo hi (.call g (Function.update regs (.gpr .ra) (pc + 4)) :: acts)
      (Function.update regs (.gpr .ra) (pc + 4)) t memory := by
  obtain ⟨hin', hra⟩ := T.calling_next hblock
  have hin : (T.block pc).In f := hblock ▸ rfl
  refine Valid.push ?_ htarget (fun h => absurd (htrap.symm.trans h) (by decide))
    fun regs' hkept => ?_
  · rw [linked_of_ne _ _ (by decide)]
    exact valid.sp_range
  · rw [Function.update_self]
    refine valid.behind hin hin' hra ?_ fun r hr hne => ?_
    · rw [hkept.sp, linked_of_ne _ _ (by decide)]
    · rw [hkept.gpr r hr, linked_of_ne _ _ fun h => hne (XReg.gpr.inj h)]

/-- `kernelvec` has saved the registers and calls `kerneltrap`. -/
theorem Valid.handle (valid : Valid T lo hi acts regs pc memory)
    (hblock : T.block pc = .saving []) :
    Valid T lo hi (.call T.handler (Function.update regs (.gpr .ra) (pc + 4)) :: acts)
      (Function.update regs (.gpr .ra) (pc + 4)) T.kerneltrap memory := by
  have hrange := valid.sp_range
  cases acts with
  | nil => exact valid.elim
  | cons act acts =>
      cases act with
      | call f e =>
          obtain ⟨-, -, -, -, calls, -⟩ := valid
          rw [hblock] at calls
          exact calls.elim
      | trap e pc₀ memory₀ =>
          obtain ⟨hon, hoff, hspie, hsepc, hunspilled, traps, hstack, hbelow⟩ := valid
          rw [hblock] at traps
          obtain ⟨hbased, hheld⟩ := Opening.done traps
          refine Valid.push ?_ T.handler_block (fun _ => ?_) fun regs' hkept => ?_
          · rw [linked_of_ne _ _ (by decide)]
            exact hrange
          · rw [linked_of_ne _ _ (by decide)]
            exact hoff
          · obtain ⟨hsepc', hsstatus⟩ := hkept.csr T.handler_trap
            rw [linked_of_ne _ _ (by decide)] at hsepc' hsstatus
            have hsp := hkept.sp
            rw [linked_of_ne _ _ (by decide)] at hsp
            rw [Function.update_self]
            refine ⟨hon, hsstatus ▸ hoff, hsstatus ▸ hspie, hsepc'.trans hsepc,
              fun r hr hfree => ?_, ?_, hstack, hbelow⟩
            · have hne : r ≠ .ra := by
                rintro rfl
                exact hfree (.gpr .ra, 0) (by decide) rfl
              rw [hkept.gpr r hr, linked_of_ne _ _ fun h => hne (XReg.gpr.inj h)]
              exact hunspilled r hr hfree
            · rw [T.saving_return hblock, kernelvecRestores_eq]
              exact .loading [] _ rfl ⟨hsp.trans hbased.sp, hbased.room⟩
                (fun slot hslot => hheld slot (kernelvecReloads_sub hslot)) (by simp)

theorem Valid.ret (valid : Valid T lo hi acts regs pc memory)
    (hblock : T.block pc = .leaving f []) :
    Valid T lo hi acts.tail regs (regs (.gpr .ra)) memory := by
  cases acts with
  | nil => exact valid.elim
  | cons act acts =>
      cases act with
      | trap e pc₀ memory₀ =>
          obtain ⟨-, -, -, -, -, traps, -⟩ := valid
          rw [hblock] at traps
          exact traps.elim
      | call g e =>
          obtain ⟨-, -, -, hunspilled, calls, hback⟩ := valid
          rw [hblock] at calls
          obtain ⟨rfl, hend, closing, -⟩ := calls
          obtain ⟨hsp, hslots⟩ := closing.done
          have hkept : ∀ r, kept r = true → regs (.gpr r) = e (.gpr r) := by
            intro r hr
            by_cases hslot : ∃ slot ∈ f.slots, slot.1 = .gpr r
            · obtain ⟨slot, hmem, heq⟩ := hslot
              exact heq ▸ hslots slot hmem
            · exact hunspilled r hr fun slot hmem heq => hslot ⟨slot, hmem, heq⟩
          rw [hkept .ra rfl]
          refine hback.resolve_left (by simp [hend]) regs ⟨hsp, hkept, fun htrap => ?_⟩
          obtain ⟨i, j, hsepc, hsstatus⟩ := f.locals htrap
          exact ⟨hslots _ hsepc, hslots _ hsstatus⟩

/-- What `sret` in `kernelvec` goes back to. -/
theorem Valid.trapped (valid : Valid T lo hi acts regs pc memory)
    (hblock : T.block pc = .restoring []) :
    ∃ e pc₀ memory₀ rest, acts = .trap e pc₀ memory₀ :: rest ∧ regs .sepc = pc₀ ∧
      (∀ r, r ≠ .tp → regs (.gpr r) = e (.gpr r)) ∧
      sie (sretStatus (regs .sstatus)) = true ∧ sie (e .sstatus) = true ∧
      (∀ a : Word, (e (.gpr .sp)).toNat ≤ a.toNat → a.toNat < hi → memory a = memory₀ a) ∧
      Valid T lo hi rest e pc₀ memory := by
  cases acts with
  | nil => exact valid.elim
  | cons act acts =>
      cases act with
      | call g e =>
          obtain ⟨-, -, -, -, calls, -⟩ := valid
          rw [hblock] at calls
          exact calls.elim
      | trap e pc₀ memory₀ =>
          obtain ⟨hon, hoff, hspie, hsepc, hunspilled, traps, hstack, hbelow⟩ := valid
          rw [hblock] at traps
          obtain ⟨hsp, hslots⟩ := Closing.done traps
          refine ⟨e, pc₀, memory₀, acts, rfl, hsepc, fun r htp => ?_,
            (sie_sretStatus _).trans hspie, hon, hstack, hbelow⟩
          by_cases hr : r = .sp
          · exact hr ▸ hsp
          · rcases kernelvec_covers r hr htp with ⟨slot, hslot, heq⟩ | ⟨hkept, hfree⟩
            · exact heq ▸ hslots slot hslot
            · exact hunspilled r hkept hfree

theorem Valid.interrupt (valid : Valid T lo hi acts regs pc memory)
    (hon : sie (regs .sstatus) = true) :
    Valid T lo hi (.trap regs pc memory :: acts)
      (Function.update (Function.update regs .sepc pc) .sstatus (trapStatus (regs .sstatus)))
      T.kernelvec memory := by
  have hgpr : ∀ r, Function.update (Function.update regs .sepc pc) .sstatus
      (trapStatus (regs .sstatus)) (.gpr r) = regs (.gpr r) := fun r =>
    (Function.update_of_ne (by simp) ..).trans (Function.update_of_ne (by simp) ..)
  refine ⟨hon, ?_, ?_, ?_, fun r _ _ => hgpr r, ?_, fun _ _ _ => rfl, valid⟩
  · rw [Function.update_self]
    exact sie_trapStatus _
  · rw [Function.update_self]
    exact (spie_trapStatus _).trans hon
  · exact (Function.update_of_ne (by decide) ..).trans (Function.update_self ..)
  · rw [T.kernelvec_block, kernelvecSaves_eq]
    refine .start (hgpr .sp) fun slot hslot => ?_
    have hgprs : ∀ slot ∈ kernelvecFrame.slots, ∃ r, slot.1 = .gpr r := by
      intro slot hslot
      rcases hx : slot.1 with r | _ | _
      · exact ⟨r, rfl⟩
      · exact absurd hx ((by decide : ∀ slot ∈ kernelvecFrame.slots, slot.1 ≠ .sepc) slot hslot)
      · exact absurd hx
          ((by decide : ∀ slot ∈ kernelvecFrame.slots, slot.1 ≠ .sstatus) slot hslot)
    obtain ⟨r, hr⟩ := hgprs slot hslot
    rw [hr]
    exact hgpr r

/-! ## Stacks and contexts in memory -/

namespace Placement

variable (L) {c c' : Ctx Unit} {a : Word} {r r' : Reg}

theorem low_proc (p : Slot) : L.low (.proc p) = 2 ^ 38 - 4096 - (p.val + 1) * 8192 :=
  kstackVa_toNat p

theorem high_lt (c : Ctx Unit) : L.high c < 2 ^ 63 := by
  have hstack := L.stack0_le
  rw [physTop_toNat] at hstack
  cases c with
  | proc p =>
      have hlow := L.low_proc p
      unfold high
      omega
  | cpu u =>
      change L.stack0.toNat + 4096 < _
      omega

theorem stack_apart (hne : c ≠ c') (hlow : L.low c ≤ a.toNat) (hhigh : a.toNat < L.high c)
    (hlow' : L.low c' ≤ a.toNat) : L.high c' ≤ a.toNat := by
  have hstack := L.stack0_le
  rw [physTop_toNat] at hstack
  unfold high at hhigh ⊢
  cases c with
  | proc p =>
      have hp := p.isLt
      have hlowp := L.low_proc p
      cases c' with
      | proc q =>
          have hq := q.isLt
          have hlowq := L.low_proc q
          have hpq : p.val ≠ q.val := fun h => hne (congrArg _ (Fin.ext h))
          unfold nproc at hp hq
          omega
      | cpu u =>
          change L.stack0.toNat ≤ _ at hlow'
          change L.stack0.toNat + 4096 ≤ _
          unfold nproc at hp
          omega
  | cpu u =>
      cases c' with
      | proc q =>
          have hq := q.isLt
          have hlowq := L.low_proc q
          change _ < L.stack0.toNat + 4096 at hhigh
          unfold nproc at hq
          omega
      | cpu u' => exact absurd rfl hne

theorem area_toNat (c : Ctx Unit) (hr : r ∈ contextRegs) :
    (L.area c + contextOffset r).toNat = (L.area c).toNat + 8 * contextRegs.idxOf r ∧
      contextRegs.idxOf r < 14 := by
  have hle := L.area_le c
  rw [physTop_toNat] at hle
  have hidx : contextRegs.idxOf r < 14 := List.idxOf_lt_length_iff.mpr hr
  have hoffset : (contextOffset r).toNat = 8 * contextRegs.idxOf r :=
    Nat.mod_eq_of_lt (by omega)
  refine ⟨?_, hidx⟩
  rw [BitVec.toNat_add, hoffset]
  omega

theorem area_off_stack (c : Ctx Unit) (hr : r ∈ contextRegs)
    (hlow : L.low c' ≤ (L.area c + contextOffset r).toNat) :
    L.high c' ≤ (L.area c + contextOffset r).toNat := by
  obtain ⟨haddress, hidx⟩ := L.area_toNat c hr
  have hle := L.area_le c
  have hstack := L.area_stack0 c
  rw [physTop_toNat] at hle
  unfold high
  cases c' with
  | proc q =>
      have hq := q.isLt
      have hlowq := L.low_proc q
      unfold nproc at hq
      omega
  | cpu u =>
      change L.stack0.toNat ≤ _ at hlow
      change L.stack0.toNat + 4096 ≤ _
      omega

theorem area_ne (hne : c ≠ c') (hr : r ∈ contextRegs) (hr' : r' ∈ contextRegs) :
    L.area c + contextOffset r ≠ L.area c' + contextOffset r' := by
  intro heq
  have hnat := congrArg BitVec.toNat heq
  obtain ⟨haddress, hidx⟩ := L.area_toNat c hr
  obtain ⟨haddress', hidx'⟩ := L.area_toNat c' hr'
  have hareas := L.area_area c c' hne
  omega

end Placement

/-! ## All stacks -/

/-- A context that does not run: its registers are in its `struct context`, and with them
its stack is in order. -/
structure Parked (T : Text) (L : Placement) (c : Ctx Unit) (acts : List Activation)
    (left : Regs) (memory : Cells) : Prop where
  saved : ∀ r ∈ contextRegs, memory (L.area c + contextOffset r) = left (.gpr r)
  valid : ∀ regs, (∀ r ∈ contextRegs, regs (.gpr r) = left (.gpr r)) →
    Valid T (L.low c) (L.high c) acts regs (left (.gpr .ra)) memory

structure Sound (T : Text) (L : Placement) (m : Machine) : Prop where
  running : Valid T (L.low m.cur) (L.high m.cur) (m.acts m.cur) m.regs m.pc m.memory
  parked : ∀ c, c ≠ m.cur → m.live c = true → Parked T L c (m.acts c) (m.left c) m.memory

theorem Parked.of_memory {c : Ctx Unit} {left : Regs} (parked : Parked T L c acts left memory)
    (hstack : ∀ a : Word, L.low c ≤ a.toNat → a.toNat < L.high c → memory' a = memory a)
    (harea : ∀ r ∈ contextRegs,
      memory' (L.area c + contextOffset r) = memory (L.area c + contextOffset r)) :
    Parked T L c acts left memory' where
  saved r hr := (harea r hr).trans (parked.saved r hr)
  valid regs hregs := by
    have valid := parked.valid regs hregs
    exact valid.of_memory fun a hge hlt _ => hstack a (valid.sp_range.1.trans hge) hlt

variable {m m' m₀ : Machine}

/-- A step on the running stack that changes no other memory. -/
theorem Sound.of_running (sound : Sound T L m) (hcur : m'.cur = m.cur)
    (hlive : m'.live = m.live) (hleft : m'.left = m.left)
    (hacts : ∀ c, c ≠ m.cur → m'.acts c = m.acts c)
    (hrunning : Valid T (L.low m.cur) (L.high m.cur) (m'.acts m.cur) m'.regs m'.pc m'.memory)
    (hmemory : ∀ a, m'.memory a ≠ m.memory a → ∀ c, c ≠ m.cur → m.live c = true →
      (L.low c ≤ a.toNat → L.high c ≤ a.toNat) ∧
        ∀ r ∈ contextRegs, a ≠ L.area c + contextOffset r) : Sound T L m' where
  running := hcur ▸ hrunning
  parked := by
    intro c hc hlive'
    rw [hcur] at hc
    rw [hlive] at hlive'
    rw [hleft, hacts c hc]
    refine (sound.parked c hc hlive').of_memory (fun a hlow hhigh => ?_) fun r hr => ?_
    · by_contra hne
      have hout := (hmemory a hne c hc hlive').1 hlow
      omega
    · by_contra hne
      exact (hmemory _ hne c hc hlive').2 r hr rfl

/-- A step that changes no memory. -/
theorem Sound.of_acts (sound : Sound T L m) {acts : List Activation} {regs : Regs} {pc : Word}
    (hrunning : Valid T (L.low m.cur) (L.high m.cur) acts regs pc m.memory) :
    Sound T L { m with regs, pc, acts := Function.update m.acts m.cur acts } := by
  refine sound.of_running rfl rfl rfl (fun c hc => Function.update_of_ne hc ..) ?_
    fun a ha => absurd rfl ha
  change Valid T _ _ (Function.update m.acts m.cur acts m.cur) regs pc m.memory
  rw [Function.update_self]
  exact hrunning

theorem switched_areas {new : Ctx Unit} (hold : m.regs (.gpr .a0) = L.area m.cur)
    (hnew : m.regs (.gpr .a1) = L.area new) (hother : new ≠ m.cur) :
    Switched (L.area m.cur) (L.area new) m.linked (Insn.run swtch (m.linked, m.memory)).1
      m.memory (Insn.run swtch (m.linked, m.memory)).2 := by
  have hold' : m.linked (.gpr .a0) = L.area m.cur := (linked_of_ne _ _ (by decide)).trans hold
  have hnew' : m.linked (.gpr .a1) = L.area new := (linked_of_ne _ _ (by decide)).trans hnew
  have switched := run_swtch m.linked m.memory fun r hr r' hr' => by
    rw [hold', hnew']
    exact L.area_ne hother hr hr'
  rwa [hold', hnew'] at switched

/-- `swtch` writes no stack. -/
theorem Switched.stack {regs regs' : Regs} {memory' : Cells} {c : Ctx Unit} {new : Word}
    (switched : Switched (L.area c) new regs regs' memory memory') (c' : Ctx Unit) (a : Word)
    (hlow : L.low c' ≤ a.toNat) (hhigh : a.toNat < L.high c') : memory' a = memory a := by
  refine switched.other a fun r hr heq => ?_
  subst heq
  have hout := L.area_off_stack c hr hlow
  omega

theorem Sound.switch (sound : Sound T L m) {new : Ctx Unit} {stays : Bool}
    (hblock : T.block m.pc = .switching f) (hold : m.regs (.gpr .a0) = L.area m.cur)
    (hnew : m.regs (.gpr .a1) = L.area new) (hother : new ≠ m.cur)
    (hlive : m.live new = true) :
    Sound T L
      { regs := (Insn.run swtch (m.linked, m.memory)).1
        memory := (Insn.run swtch (m.linked, m.memory)).2
        pc := (Insn.run swtch (m.linked, m.memory)).1 (.gpr .ra)
        cur := new
        live := Function.update m.live m.cur stays
        acts := m.acts
        left := Function.update m.left m.cur m.linked } := by
  have switched := switched_areas hold hnew hother
  have hstack := switched.stack
  have parked := sound.parked new hother hlive
  have hregs : ∀ r ∈ contextRegs,
      (Insn.run swtch (m.linked, m.memory)).1 (.gpr r) = m.left new (.gpr r) :=
    fun r hr => (switched.loaded r hr).trans (parked.saved r hr)
  refine ⟨?_, fun c hc hlivec => ?_⟩
  · have valid := parked.valid _ hregs
    rw [← hregs .ra (by decide)] at valid
    exact valid.of_memory fun a hge hlt _ => hstack new a (valid.sp_range.1.trans hge) hlt
  · by_cases hcur : c = m.cur
    · subst hcur
      change Parked T L m.cur (m.acts m.cur) (Function.update m.left m.cur m.linked m.cur) _
      rw [Function.update_self]
      refine ⟨fun r hr => switched.saved r hr, fun regs hregs' => ?_⟩
      have valid := sound.running.of_memory fun a hge hlt _ =>
        hstack m.cur a (sound.running.sp_range.1.trans hge) hlt
      obtain ⟨hin', hra⟩ := T.switching_next hblock
      have hlinked : m.linked (.gpr .ra) = m.pc + 4 := Function.update_self ..
      rw [hlinked]
      refine valid.behind (f := f) (hblock ▸ rfl) hin' hra ?_ fun r hr hne => ?_
      · exact (hregs' .sp (by decide)).trans (linked_of_ne _ _ (by decide))
      · exact (hregs' r (mem_contextRegs.mpr (.inr hr))).trans
          (linked_of_ne _ _ fun h => hne (XReg.gpr.inj h))
    · change Function.update m.live m.cur stays c = true at hlivec
      rw [Function.update_of_ne hcur] at hlivec
      change Parked T L c (m.acts c) (Function.update m.left m.cur m.linked c) _
      rw [Function.update_of_ne hcur]
      exact (sound.parked c hcur hlivec).of_memory (hstack c) fun r hr =>
        switched.other _ fun r' hr' => L.area_ne hcur hr hr'

/-- A prepared context begins in `forkret`, with an empty stack. -/
theorem parked_fresh (p : Slot) (entry : Word) (hcontext : Prepared T L p entry memory) :
    Parked T L (.proc p) [.call T.thread (freshRegs T p entry)] (freshRegs T p entry) memory where
  saved := hcontext
  valid regs hregs := by
    have hp := p.isLt
    have hlow := kstackVa_toNat p
    have htop : (kstackVa p + pgSize).toNat = (kstackVa p).toNat + 4096 := by
      have hsize : pgSize.toNat = 4096 := by decide
      rw [BitVec.toNat_add, hsize]
      unfold nproc at hp
      omega
    have hmask : T.thread.trap = true → sie (regs .sstatus) = false :=
      fun h => absurd (T.thread_trap.symm.trans h) (by decide)
    refine ⟨?_, ?_, fun h => absurd (T.thread_trap.symm.trans h) (by decide),
      fun r hr _ => hregs r (mem_contextRegs.mpr (.inr hr)), ?_, .inl T.thread_endless⟩
    · change (kstackVa p).toNat ≤ (kstackVa p + pgSize).toNat
      omega
    · change (kstackVa p + pgSize).toNat ≤ (kstackVa p).toNat + 4096
      omega
    · change Calls _ _ _ _ _ (T.block T.forkret)
      rw [T.thread_block]
      refine Calls.next_entering (.start (hregs .sp (by decide)) fun slot hslot => ?_) hmask
      obtain ⟨r, hr, heq⟩ := T.thread.slot_kept T.thread_trap hslot
      rw [heq]
      exact hregs r (mem_contextRegs.mpr (.inr hr))

theorem Sound.step (sound : Sound T L m) (hstep : Step T L m m') : Sound T L m' := by
  cases hstep with
  | straight i hblock hlow hhigh =>
      obtain ⟨valid, hmemory⟩ := sound.running.straight hblock (L.high_lt _) hlow hhigh
      refine sound.of_running rfl rfl rfl (fun _ _ => rfl) valid fun a ha c hc _ => ?_
      obtain ⟨hge, hlt⟩ := hmemory a ha
      refine ⟨L.stack_apart (Ne.symm hc) hge hlt, fun r hr heq => ?_⟩
      subst heq
      have hout := L.area_off_stack c hr hge
      omega
  | compute f regs memory pc hblock hnext hsp hkept hmemory =>
      refine sound.of_running rfl rfl rfl (fun _ _ => rfl)
        (sound.running.compute hblock hnext hsp hkept fun a hlt hguarded =>
          hmemory a (.own hlt hguarded)) fun a ha c hc hlive => ⟨fun hlow => ?_, fun r hr heq => ?_⟩
      · by_contra hhigh
        exact ha (hmemory a (.stack c hc hlive hlow (by omega)))
      · exact ha (hmemory a (.area c hc hlive r hr heq))
  | call f g t hblock htarget =>
      obtain ⟨g', htrap, htarget'⟩ := T.calling_target hblock
      obtain ⟨rfl, -⟩ := Block.entering.inj (htarget'.symm.trans htarget)
      exact sound.of_acts (sound.running.call hblock htarget htrap)
  | ret f hblock => exact sound.of_acts (sound.running.ret hblock)
  | handle hblock => exact sound.of_acts (sound.running.handle hblock)
  | sret hblock =>
      obtain ⟨e, pc₀, memory₀, rest, hacts, hsepc, hregs, -, hon, -, hbelow⟩ :=
        sound.running.trapped hblock
      refine sound.of_acts ?_
      rw [hacts, List.tail_cons, hsepc]
      exact hbelow.of_regs hon fun r hr =>
        (Function.update_of_ne (by simp) ..).trans (hregs r hr)
  | interrupt hsie => exact sound.of_acts (sound.running.interrupt hsie)
  | switch f new stays hblock hold hnew hother hlive =>
      exact sound.switch hblock hold hnew hother hlive
  | start f p entry hblock hdead hother hcontext =>
      refine ⟨?_, fun c hc hlive => ?_⟩
      · change Valid T _ _ (Function.update m.acts (.proc p) _ m.cur) _ _ _
        rw [Function.update_of_ne hother]
        exact sound.running
      · by_cases hcp : c = .proc p
        · subst hcp
          change Parked T L _ (Function.update m.acts (.proc p) _ (.proc p))
            (Function.update m.left (.proc p) _ (.proc p)) _
          rw [Function.update_self, Function.update_self]
          exact parked_fresh p entry hcontext
        · change Function.update m.live (.proc p) true c = true at hlive
          rw [Function.update_of_ne hcp] at hlive
          change Parked T L _ (Function.update m.acts (.proc p) _ c)
            (Function.update m.left (.proc p) _ c) _
          rw [Function.update_of_ne hcp, Function.update_of_ne hcp]
          exact sound.parked c hc hlive

theorem Boots.sound (boots : Boots T L m) : Sound T L m where
  running := by
    obtain ⟨f, hend, htrap, hin, e, hacts, hbased, hhigh, hheld, hunspilled⟩ := boots.code
    rw [hacts]
    exact ⟨(Nat.le_add_right _ _).trans hbased.room, hhigh,
      fun h => absurd (htrap.symm.trans h) (by decide), hunspilled, hin.calls hbased hheld,
      .inl hend⟩
  parked c hc hlive := absurd ((boots.alone c hc).1.symm.trans hlive) (by decide)

theorem sound_run (boots : Boots T L m₀) (hrun : ReflTransGen (Step T L) m₀ m) :
    Sound T L m := by
  induction hrun with
  | refl => exact boots.sound
  | tail _ hstep ih => exact ih.step hstep

/-! ## Runs -/

/-- A step that finds `acts` below what has been called or interrupted since. -/
def Above (T : Text) (L : Placement) (c : Ctx Unit) (acts : List Activation)
    (m m' : Machine) : Prop :=
  Step T L m m' ∧ acts <:+ m.acts c

/-- Every trap on a stack is an interrupt taken earlier in the run, which has not returned. -/
theorem trap_recorded (boots : Boots T L m₀) (hrun : ReflTransGen (Step T L) m₀ m)
    {c : Ctx Unit} {rest : List Activation}
    (hmem : .trap regs pc memory :: rest <:+ m.acts c) :
    ∃ m₁, ReflTransGen (Step T L) m₀ m₁ ∧ sie (m₁.regs .sstatus) = true ∧
      ReflTransGen (Above T L c (.trap regs pc memory :: rest)) (m₁.interrupted T) m ∧
      m₁.cur = c ∧ m₁.regs = regs ∧ m₁.pc = pc ∧ m₁.memory = memory ∧ m₁.acts c = rest := by
  induction hrun with
  | refl =>
      by_cases hc : c = m₀.cur
      · obtain ⟨f, -, -, -, e, hacts, -⟩ := boots.code
        rw [hc, hacts, List.suffix_cons_iff] at hmem
        rcases hmem with heq | hmem
        · cases heq
        · exact absurd (List.suffix_nil.mp hmem) (by simp)
      · rw [(boots.alone c hc).2] at hmem
        exact absurd (List.suffix_nil.mp hmem) (by simp)
  | @tail m m' hrun hstep ih =>
      have hearlier : .trap regs pc memory :: rest <:+ m.acts c → ∃ m₁,
          ReflTransGen (Step T L) m₀ m₁ ∧ sie (m₁.regs .sstatus) = true ∧
          ReflTransGen (Above T L c (.trap regs pc memory :: rest)) (m₁.interrupted T) m' ∧
          m₁.cur = c ∧ m₁.regs = regs ∧ m₁.pc = pc ∧ m₁.memory = memory ∧
          m₁.acts c = rest := by
        intro h
        obtain ⟨m₁, hto, hsie, hfrom, hrest⟩ := ih h
        exact ⟨m₁, hto, hsie, hfrom.tail ⟨hstep, h⟩, hrest⟩
      have hupdate : ∀ {acts : List Activation} {c' : Ctx Unit},
          .trap regs pc memory :: rest <:+ Function.update m.acts c' acts c →
          (.trap regs pc memory :: rest <:+ acts → .trap regs pc memory :: rest <:+ m.acts c') →
          .trap regs pc memory :: rest <:+ m.acts c := by
        intro acts c' h hsub
        by_cases hc : c = c'
        · subst hc
          rw [Function.update_self] at h
          exact hsub h
        · rwa [Function.update_of_ne hc] at h
      have hcall : ∀ {f e}, .trap regs pc memory :: rest <:+
          Function.update m.acts m.cur (.call f e :: m.acts m.cur) c →
          .trap regs pc memory :: rest <:+ m.acts c := by
        intro f e h
        refine hupdate h fun h => ?_
        rcases List.suffix_cons_iff.mp h with heq | h
        · cases heq
        · exact h
      have htail : .trap regs pc memory :: rest <:+
          Function.update m.acts m.cur (m.acts m.cur).tail c →
          .trap regs pc memory :: rest <:+ m.acts c :=
        fun h => hupdate h fun h => h.trans (List.tail_suffix _)
      cases hstep with
      | straight | compute | switch => exact hearlier hmem
      | call | handle => exact hearlier (hcall hmem)
      | ret | sret => exact hearlier (htail hmem)
      | start f p entry =>
          refine hearlier (hupdate hmem fun h => ?_)
          rcases List.suffix_cons_iff.mp h with heq | h
          · cases heq
          · exact absurd (List.suffix_nil.mp h) (by simp)
      | interrupt hsie =>
          by_cases hc : c = m.cur
          · subst hc
            have hacts : (m.interrupted T).acts m.cur =
                .trap m.regs m.pc m.memory :: m.acts m.cur := Function.update_self ..
            rw [hacts, List.suffix_cons_iff] at hmem
            rcases hmem with heq | hmem
            · obtain ⟨⟨rfl, rfl, rfl⟩, rfl⟩ : (regs = m.regs ∧ pc = m.pc ∧ memory = m.memory) ∧
                  rest = m.acts m.cur := by simpa using heq
              exact ⟨m, hrun, hsie, .refl, rfl, rfl, rfl, rfl, rfl⟩
            · exact hearlier hmem
          · have hacts : (m.interrupted T).acts c = m.acts c := Function.update_of_ne hc ..
            exact hearlier (hacts ▸ hmem)

/-- What interrupted code finds when it goes on. -/
structure Resumes (L : Placement) (m₁ m' : Machine) : Prop where
  cur : m'.cur = m₁.cur
  pc : m'.pc = m₁.pc
  regs : ∀ r, r ≠ .tp → m'.regs (.gpr r) = m₁.regs (.gpr r)
  sie : sie (m'.regs .sstatus) = sie (m₁.regs .sstatus)
  stack : ∀ a : Word, (m₁.regs (.gpr .sp)).toNat ≤ a.toNat → a.toNat < L.high m₁.cur →
    m'.memory a = m₁.memory a
  acts : m'.acts m'.cur = m₁.acts m₁.cur

/-- Whenever `kernelvec` executes `sret`, it ends an interrupt taken earlier in the run, and the
interrupted code goes on as if nothing had happened. -/
def PreemptionTransparent (T : Text) (L : Placement) : Prop :=
  ∀ m₀ m m' : Machine, Boots T L m₀ → ReflTransGen (Step T L) m₀ m →
    T.block m.pc = .restoring [] → Step T L m m' →
    ∃ m₁, ReflTransGen (Step T L) m₀ m₁ ∧ Registers.sie (m₁.regs .sstatus) = true ∧
      ReflTransGen (Above T L m.cur ((m₁.interrupted T).acts m₁.cur)) (m₁.interrupted T) m ∧
      Resumes L m₁ m'

theorem preemption_transparent (T : Text) (L : Placement) : PreemptionTransparent T L := by
  intro m₀ m m' boots hrun hblock hstep
  obtain ⟨e, pc₀, memory₀, rest, hacts, hsepc, hregs, hback, hon, hstack, -⟩ :=
    (sound_run boots hrun).running.trapped hblock
  have hmasked : Registers.sie (m.regs .sstatus) = false := by
    have valid := (sound_run boots hrun).running
    rw [hacts] at valid
    exact valid.2.1
  have htop : .trap e pc₀ memory₀ :: rest <:+ m.acts m.cur := by
    rw [hacts]
  obtain ⟨m₁, hto, hsie, hfrom, hcur, rfl, rfl, rfl, rfl⟩ := trap_recorded boots hrun htop
  have hacts₁ : (m₁.interrupted T).acts m₁.cur =
      .trap m₁.regs m₁.pc m₁.memory :: m₁.acts m.cur := by
    rw [← hcur]
    exact Function.update_self ..
  refine ⟨m₁, hto, hsie, hacts₁ ▸ hfrom, ?_⟩
  cases hstep with
  | straight i hblock' => rw [hblock] at hblock'; cases hblock'
  | compute f _ _ _ hblock' => rw [hblock] at hblock'; exact hblock'.elim
  | call f g t hblock' => rw [hblock] at hblock'; cases hblock'
  | ret f hblock' => rw [hblock] at hblock'; cases hblock'
  | handle hblock' => rw [hblock] at hblock'; cases hblock'
  | interrupt hsie' => exact absurd (hsie'.symm.trans hmasked) (by decide)
  | switch f new stays hblock' => rw [hblock] at hblock'; cases hblock'
  | start f p entry hblock' => rw [hblock] at hblock'; exact hblock'.elim
  | sret =>
      let regs : Regs := Function.update m.regs .sstatus (sretStatus (m.regs .sstatus))
      have hgpr : ∀ r, regs (.gpr r) = m.regs (.gpr r) := fun r =>
        Function.update_of_ne (by simp) ..
      have hsstatus : regs .sstatus = sretStatus (m.regs .sstatus) := Function.update_self ..
      refine ⟨hcur.symm, hsepc, fun r hr => (hgpr r).trans (hregs r hr), ?_,
        fun a hlow hhigh => hstack a hlow (hcur ▸ hhigh), ?_⟩
      · change Registers.sie (regs .sstatus) = _
        rw [hsstatus, hback, hsie]
      · change Function.update m.acts m.cur _ m.cur = _
        rw [Function.update_self, hacts, List.tail_cons, hcur]

/-! ## Context switches -/

/-- A step of another context. -/
def Away (T : Text) (L : Placement) (c : Ctx Unit) (m m' : Machine) : Prop :=
  Step T L m m' ∧ m.cur ≠ c

/-- How a context that does not run has come to rest: it called `swtch` at `m₁` and has not run
since, or it has been made and has not run yet. -/
inductive Rests (T : Text) (L : Placement) (m₀ : Machine) (c : Ctx Unit) (m : Machine) :
    Prop where
  | switched (m₁ m₂ : Machine) (f : Func) (before : ReflTransGen (Step T L) m₀ m₁)
      (leaves : Step T L m₁ m₂) (since : ReflTransGen (Away T L c) m₂ m)
      (cur : m₁.cur = c) (block : T.block m₁.pc = .switching f) (left : m.left c = m₁.linked)
      (stack : ∀ a : Word, L.low c ≤ a.toNat → a.toNat < L.high c → m.memory a = m₁.memory a)
      (acts : m.acts c = m₁.acts c)
  | fresh (m₁ m₂ : Machine) (p : Slot) (entry : Word) (before : ReflTransGen (Step T L) m₀ m₁)
      (starts : Step T L m₁ m₂) (since : ReflTransGen (Away T L c) m₂ m)
      (dead : m₁.live c = false) (proc : c = .proc p)
      (prepared : Prepared T L p entry m₁.memory) (left : m.left c = freshRegs T p entry)
      (acts : m.acts c = [.call T.thread (freshRegs T p entry)])

theorem Rests.of_same {c : Ctx Unit} (rests : Rests T L m₀ c m) (hstep : Step T L m m')
    (hc : c ≠ m.cur) (hleft : m'.left c = m.left c)
    (hstack : ∀ a : Word, L.low c ≤ a.toNat → a.toNat < L.high c → m'.memory a = m.memory a)
    (hacts : m'.acts c = m.acts c) : Rests T L m₀ c m' := by
  cases rests with
  | switched m₁ m₂ f before leaves since cur block left stack acts =>
      exact .switched m₁ m₂ f before leaves (since.tail ⟨hstep, hc.symm⟩) cur block
        (hleft.trans left)
        (fun a hlow hhigh => (hstack a hlow hhigh).trans (stack a hlow hhigh)) (hacts.trans acts)
  | fresh m₁ m₂ p entry before starts since dead proc prepared left acts =>
      exact .fresh m₁ m₂ p entry before starts (since.tail ⟨hstep, hc.symm⟩) dead proc prepared
        (hleft.trans left) (hacts.trans acts)

theorem Rests.step {c : Ctx Unit} (sound : Sound T L m)
    (hrun : ReflTransGen (Step T L) m₀ m)
    (rests : c ≠ m.cur → m.live c = true → Rests T L m₀ c m) (hstep : Step T L m m')
    (hc : c ≠ m'.cur) (hlive : m'.live c = true) : Rests T L m₀ c m' := by
  have hsame : ∀ {acts : List Activation}, c ≠ m.cur →
      Function.update m.acts m.cur acts c = m.acts c := fun h => Function.update_of_ne h ..
  have h := hstep
  cases hstep with
  | straight i hblock hlow hhigh =>
      refine (rests hc hlive).of_same h hc rfl (fun a ha ha' => ?_) rfl
      by_contra hne
      obtain ⟨hge, hlt⟩ := (sound.running.straight hblock (L.high_lt _) hlow hhigh).2 a hne
      have hout := L.stack_apart (Ne.symm hc) hge hlt ha
      omega
  | compute f regs memory pc hblock hnext hsp hkept hmemory =>
      exact (rests hc hlive).of_same h hc rfl
        (fun a ha ha' => hmemory a (.stack c hc hlive ha ha')) rfl
  | call | ret | handle | sret | interrupt =>
      exact (rests hc hlive).of_same h hc rfl (fun _ _ _ => rfl) (hsame hc)
  | switch f new stays hblock hold hnew hother hlive' =>
      have hstack := (switched_areas hold hnew hother).stack c
      by_cases hcur : c = m.cur
      · subst hcur
        exact .switched m _ f hrun h .refl rfl hblock (Function.update_self ..) hstack rfl
      · change Function.update m.live m.cur stays c = true at hlive
        rw [Function.update_of_ne hcur] at hlive
        exact (rests hcur hlive).of_same h hcur (Function.update_of_ne hcur ..) hstack rfl
  | start f p entry hblock hdead hother hcontext =>
      by_cases hcp : c = .proc p
      · subst hcp
        exact .fresh m _ p entry hrun h .refl hdead rfl hcontext (Function.update_self ..)
          (Function.update_self ..)
      · change Function.update m.live (.proc p) true c = true at hlive
        rw [Function.update_of_ne hcp] at hlive
        exact (rests hc hlive).of_same h hc (Function.update_of_ne hcp ..) (fun _ _ _ => rfl)
          (Function.update_of_ne hcp ..)

theorem rests_run (boots : Boots T L m₀) (hrun : ReflTransGen (Step T L) m₀ m)
    {c : Ctx Unit} (hc : c ≠ m.cur) (hlive : m.live c = true) : Rests T L m₀ c m := by
  induction hrun with
  | refl => exact absurd ((boots.alone c hc).1.symm.trans hlive) (by decide)
  | tail hrun hstep ih => exact .step (sound_run boots hrun) hrun ih hstep hc hlive

/-- What a context finds when a hart switches to it. -/
structure Returned (L : Placement) (m₁ m' : Machine) : Prop where
  cur : m'.cur = m₁.cur
  pc : m'.pc = m₁.pc + 4
  sp : m'.regs (.gpr .sp) = m₁.regs (.gpr .sp)
  kept : ∀ r, kept r = true → r ≠ .ra → m'.regs (.gpr r) = m₁.regs (.gpr r)
  stack : ∀ a : Word, L.low m₁.cur ≤ a.toNat → a.toNat < L.high m₁.cur →
    m'.memory a = m₁.memory a
  acts : m'.acts m'.cur = m₁.acts m₁.cur

/-- A context that has just been made begins in `forkret` on an empty stack. -/
structure Begins (T : Text) (p : Slot) (entry : Word) (m' : Machine) : Prop where
  cur : m'.cur = .proc p
  pc : m'.pc = T.forkret
  sp : m'.regs (.gpr .sp) = kstackVa p + pgSize
  s0 : m'.regs (.gpr .s0) = entry

/-- Every `swtch` returns where and as its target last called `swtch`, or to `forkret`, with the
entry function that the context in memory had when the target was made, when it has not run
since. -/
def SwitchTransparent (T : Text) (L : Placement) : Prop :=
  ∀ (m₀ m m' : Machine), Boots T L m₀ → ReflTransGen (Step T L) m₀ m → Step T L m m' →
    m'.cur ≠ m.cur →
    ∃ m₁ m₂, ReflTransGen (Step T L) m₀ m₁ ∧ Step T L m₁ m₂ ∧
      ReflTransGen (Away T L m'.cur) m₂ m ∧
      ((∃ f, T.block m₁.pc = .switching f ∧ Returned L m₁ m') ∨
        m₁.live m'.cur = false ∧
          ∃ p entry, Prepared T L p entry m₁.memory ∧ Begins T p entry m')

theorem switch_transparent (T : Text) (L : Placement) : SwitchTransparent T L := by
  intro m₀ m m' boots hrun hstep hmoved
  cases hstep with
  | straight | compute | call | ret | handle | sret | interrupt | start =>
      exact absurd rfl hmoved
  | switch f new stays hblock hold hnew hother hlive =>
      have switched := switched_areas hold hnew hother
      have parked := (sound_run boots hrun).parked new hother hlive
      have hregs : ∀ r ∈ contextRegs,
          (Insn.run swtch (m.linked, m.memory)).1 (.gpr r) = m.left new (.gpr r) :=
        fun r hr => (switched.loaded r hr).trans (parked.saved r hr)
      cases rests_run boots hrun hother hlive with
      | fresh m₁ m₂ p entry before starts since dead proc prepared left acts =>
          rw [left] at hregs
          exact ⟨m₁, m₂, before, starts, since, .inr ⟨dead, p, entry, prepared, proc,
            hregs .ra (by decide), hregs .sp (by decide), hregs .s0 (by decide)⟩⟩
      | switched m₁ m₂ f₁ before leaves since cur block left stack acts =>
          rw [left] at hregs
          refine ⟨m₁, m₂, before, leaves, since, .inl ⟨f₁, block, cur.symm, ?_, ?_,
            fun r hr hne => ?_, fun a hlow hhigh => ?_, ?_⟩⟩
          · exact (hregs .ra (by decide)).trans (Function.update_self ..)
          · exact (hregs .sp (by decide)).trans (linked_of_ne _ _ (by decide))
          · exact (hregs r (mem_contextRegs.mpr (.inr hr))).trans
              (linked_of_ne _ _ fun h => hne (XReg.gpr.inj h))
          · rw [cur] at hlow hhigh
            exact (switched.stack new a hlow hhigh).trans (stack a hlow hhigh)
          · change m.acts new = _
            rw [acts, cur]

/-! ## A text -/

/-- Straight code that leaves `sp` alone runs to its end. -/
theorem straight_run (mk : List Insn → Block) (hnext : ∀ {a i is},
      T.block a = mk (i :: is) → T.block (a + 4) = mk is)
    (hinsn : ∀ i is, (mk (i :: is)).insn = some i) (is rest : List Insn)
    (hsp : ∀ i ∈ is, ∀ c : Regs × Cells, (i.exec c).1 (.gpr .sp) = c.1 (.gpr .sp))
    (hblock : T.block m.pc = mk (is ++ rest)) (hlow : L.low m.cur ≤ (m.regs (.gpr .sp)).toNat)
    (hhigh : (m.regs (.gpr .sp)).toNat ≤ L.high m.cur) :
    ∃ m', ReflTransGen (Step T L) m m' ∧ T.block m'.pc = mk rest ∧ m'.cur = m.cur ∧
      m'.regs (.gpr .sp) = m.regs (.gpr .sp) ∧ m'.acts = m.acts ∧ m'.live = m.live := by
  induction is generalizing m with
  | nil => exact ⟨m, .refl, hblock, rfl, rfl, rfl, rfl⟩
  | cons i is ih =>
      have hsame := hsp i List.mem_cons_self (m.regs, m.memory)
      let m₁ : Machine :=
        { m with
          regs := (i.exec (m.regs, m.memory)).1
          memory := (i.exec (m.regs, m.memory)).2
          pc := m.pc + 4 }
      have hstep : Step T L m m₁ :=
        .straight i (hblock ▸ hinsn i _) (by rwa [hsame]) (by rwa [hsame])
      have hsp₁ : m₁.regs (.gpr .sp) = m.regs (.gpr .sp) := hsame
      obtain ⟨m', hrun, hend, hcur, hsp', hacts, hlive⟩ := ih (m := m₁)
        (fun i hi => hsp i (.tail _ hi)) (hnext hblock) (by rwa [hsp₁]) (by rwa [hsp₁])
      exact ⟨m', .head hstep hrun, hend, hcur, hsp'.trans hsp₁, hacts, hlive⟩

/-- An instruction that moves `sp` within the stack. -/
theorem addi_step (mk : List Insn → Block) (hnext : ∀ {a i is},
      T.block a = mk (i :: is) → T.block (a + 4) = mk is)
    (hinsn : ∀ i is, (mk (i :: is)).insn = some i) {n : Word} {is : List Insn}
    (hblock : T.block m.pc = mk (.addi .sp n :: is))
    (hlow : L.low m.cur ≤ (m.regs (.gpr .sp) + n).toNat)
    (hhigh : (m.regs (.gpr .sp) + n).toNat ≤ L.high m.cur) :
    ∃ m', Step T L m m' ∧ T.block m'.pc = mk is ∧ m'.cur = m.cur ∧
      m'.regs (.gpr .sp) = m.regs (.gpr .sp) + n ∧ m'.acts = m.acts ∧ m'.live = m.live := by
  have hsp := Insn.exec_addi_self .sp n (m.regs, m.memory)
  exact ⟨_, .straight _ (hblock ▸ hinsn _ _) (by rwa [hsp]) (by rwa [hsp]), hnext hblock, rfl,
    hsp, rfl, rfl⟩

/-- C code loads the arguments of `swtch`; it may write any memory that is not protected. -/
theorem arguments_step {pc : Word} (hblock : (T.block m.pc).In f)
    (hnext : T.block pc = .switching f) (new : Ctx Unit)
    (hmemory : ∀ a, Protected L m a → memory a = m.memory a) :
    ∃ m', Step T L m m' ∧ m'.pc = pc ∧ m'.cur = m.cur ∧ m'.live = m.live ∧
      m'.memory = memory ∧ m'.regs (.gpr .a0) = L.area m.cur ∧
      m'.regs (.gpr .a1) = L.area new := by
  let regs : Regs :=
    Function.update (Function.update m.regs (.gpr .a0) (L.area m.cur)) (.gpr .a1) (L.area new)
  have hregs : ∀ r, r ≠ .a0 → r ≠ .a1 → regs (.gpr r) = m.regs (.gpr r) := fun r h₀ h₁ =>
    (Function.update_of_ne (fun h => h₁ (XReg.gpr.inj h)) ..).trans
      (Function.update_of_ne (fun h => h₀ (XReg.gpr.inj h)) ..)
  have ha₀ : regs (.gpr .a0) = L.area m.cur :=
    (Function.update_of_ne (by decide) ..).trans (Function.update_self ..)
  have ha₁ : regs (.gpr .a1) = L.area new := Function.update_self ..
  refine ⟨{ m with regs, memory, pc }, .compute f regs memory pc hblock (.inl (hnext ▸ rfl))
    (hregs .sp (by decide) (by decide)) (fun r hr _ => hregs r ?_ ?_) hmemory, rfl, rfl, rfl, rfl,
    ha₀, ha₁⟩
  · rintro rfl
    cases hr
  · rintro rfl
    cases hr

theorem start_step {p : Slot} {entry : Word} (hblock : (T.block m.pc).In f)
    (hdead : m.live (.proc p) = false) (hother : m.cur ≠ .proc p)
    (hcontext : Prepared T L p entry m.memory) :
    ∃ m', Step T L m m' ∧ m'.pc = m.pc ∧ m'.cur = m.cur ∧ m'.regs = m.regs ∧
      m'.memory = m.memory ∧ m'.live (.proc p) = true :=
  ⟨_, .start f p entry hblock hdead hother hcontext, rfl, rfl, rfl, rfl, Function.update_self ..⟩

theorem switch_step (hblock : T.block m.pc = .switching f) {new : Ctx Unit}
    (hold : m.regs (.gpr .a0) = L.area m.cur) (hnew : m.regs (.gpr .a1) = L.area new)
    (hother : new ≠ m.cur) (hlive : m.live new = true) :
    ∃ m', Step T L m m' ∧ m'.cur = new ∧ m'.live m.cur = true ∧
      m'.pc = m.memory (L.area new + contextOffset .ra) ∧
      m'.regs (.gpr .s0) = m.memory (L.area new + contextOffset .s0) := by
  have switched := switched_areas hold hnew hother
  exact ⟨_, .switch f new true hblock hold hnew hother hlive, rfl, Function.update_self ..,
    switched.loaded .ra (by decide), switched.loaded .s0 (by decide)⟩

def idleFunc : Func where
  size := 0
  slots := []
  size_le := by decide
  sixteen := by decide
  inside := by decide
  aligned := by decide
  offsets := by decide
  sp_free := by decide
  endless := true
  trap := false
  spills := by simp
  locals := by simp

def loopFunc : Func where
  size := 16
  slots := [(.gpr .ra, 8)]
  size_le := by decide
  sixteen := by decide
  inside := by decide
  aligned := by decide
  offsets := by decide
  sp_free := by decide
  endless := true
  trap := false
  spills := by
    intro slot hslot
    obtain rfl := List.mem_singleton.mp hslot
    exact .inl ⟨.ra, rfl, rfl⟩
  locals := by simp

def trapFunc : Func where
  size := 48
  slots := [(.gpr .ra, 40), (.gpr .s0, 32), (.sepc, 24), (.sstatus, 16)]
  size_le := by decide
  sixteen := by decide
  inside := by decide
  aligned := by decide
  offsets := by decide
  sp_free := by decide
  endless := false
  trap := true
  spills := by
    intro slot hslot
    simp only [List.mem_cons, List.not_mem_nil, or_false] at hslot
    rcases hslot with rfl | rfl | rfl | rfl
    · exact .inl ⟨.ra, rfl, rfl⟩
    · exact .inl ⟨.s0, rfl, rfl⟩
    · exact .inr ⟨rfl, .inl rfl⟩
    · exact .inr ⟨rfl, .inr rfl⟩
  locals _ := ⟨24, 16, by decide, by decide⟩

/-- The blocks of a small text, one after another from address 0. -/
def sampleBlocks : List Block :=
  kernelvecSaves.tails.map .saving ++ kernelvecRestores.tails.map .restoring ++
    trapFunc.opens.tails.map (.entering trapFunc) ++
    (trapFunc.closes trapFunc.slots).tails.map (.leaving trapFunc) ++
    loopFunc.opens.tails.map (.entering loopFunc) ++ [.switching loopFunc, .body loopFunc]

def sampleBlock (a : Word) : Block :=
  if a.toNat % 4 = 0 then sampleBlocks.getD (a.toNat / 4) (.body idleFunc)
  else .body idleFunc

instance : Decidable (f.Spills r) :=
  inferInstanceAs (Decidable (∃ slot ∈ f.slots, slot.1 = .gpr r))

/-- What has to stand behind a block. -/
def Block.follows : Block → Block → Bool
  | .entering f (_ :: is), b => b = .entering f is
  | .leaving f (_ :: is), b => b = .leaving f is
  | .saving (_ :: is), b => b = .saving is
  | .restoring (_ :: is), b => b = .restoring is
  | .saving [], b => b = .restoring kernelvecRestores
  | .switching f, b => b = .body f ∧ f.Spills .ra
  | .calling _ _, _ => false
  | _, _ => true

theorem sampleBlocks_follow : ∀ n < 56,
    (sampleBlocks.getD n (.body idleFunc)).follows
      (sampleBlocks.getD (n + 1) (.body idleFunc)) = true := by decide

theorem sampleBlock_follow (a : Word) : (sampleBlock a).follows (sampleBlock (a + 4)) = true := by
  unfold sampleBlock
  by_cases h4 : a.toNat % 4 = 0
  · by_cases hn : a.toNat / 4 < 56
    · have hnext : (a + 4).toNat = a.toNat + 4 := by bv_omega
      have hmod : (a + 4).toNat % 4 = 0 := by omega
      have hdiv : (a + 4).toNat / 4 = a.toNat / 4 + 1 := by omega
      rw [if_pos h4, if_pos hmod, hdiv]
      exact sampleBlocks_follow _ hn
    · have hlen : sampleBlocks.length = 56 := by decide
      rw [if_pos h4, List.getD_eq_getElem?_getD, List.getElem?_eq_none (by omega)]
      rfl
  · rw [if_neg h4]
    rfl

def sampleText : Text where
  block := sampleBlock
  kernelvec := 0
  kerneltrap := 156
  forkret := 204
  handler := trapFunc
  thread := loopFunc
  entering_next {a f i is} h := by simpa [Block.follows, h] using sampleBlock_follow a
  leaving_next {a f i is} h := by simpa [Block.follows, h] using sampleBlock_follow a
  saving_next {a i is} h := by simpa [Block.follows, h] using sampleBlock_follow a
  restoring_next {a i is} h := by simpa [Block.follows, h] using sampleBlock_follow a
  calling_next {a f t} h := by simpa [Block.follows, h] using sampleBlock_follow a
  calling_target {a f t} h := by simpa [Block.follows, h] using sampleBlock_follow a
  switching_next {a f} h := by
    obtain ⟨hbody, hspills⟩ : sampleBlock (a + 4) = .body f ∧ f.Spills .ra := by
      simpa [Block.follows, h] using sampleBlock_follow a
    exact ⟨hbody ▸ rfl, hspills⟩
  kernelvec_block := by decide
  saving_return {a} h := by simpa [Block.follows, h] using sampleBlock_follow a
  handler_block := by decide
  handler_trap := rfl
  thread_block := by decide
  thread_endless := rfl
  thread_trap := rfl

def sampleArea : Ctx Unit → Word
  | .proc p => kernBase + 0x2000 + BitVec.ofNat 64 (112 * p.val)
  | .cpu _ => kernBase + 0x1000

theorem sampleArea_toNat : ∀ p : Slot,
    (sampleArea (.proc p)).toNat = 0x80002000 + 112 * p.val := by decide

theorem physTop_le (p : Slot) : 0x80002000 + 112 * p.val + 112 ≤ physTop.toNat := by
  have hp := p.isLt
  rw [physTop_toNat]
  unfold nproc at hp
  omega

def samplePlacement : Placement where
  area := sampleArea
  stack0 := kernBase
  stack0_le := by decide
  area_le
    | .proc p => by rw [sampleArea_toNat]; exact physTop_le p
    | .cpu () => by decide
  area_stack0
    | .proc p => by
        have hbase : kernBase.toNat = 0x80000000 := by decide
        rw [sampleArea_toNat, hbase]
        omega
    | .cpu () => by decide
  area_area := by
    have hcpu : (sampleArea (.cpu ())).toNat = 0x80001000 := by decide
    rintro (p | ⟨⟩) (q | ⟨⟩) hne
    · have hval : p.val ≠ q.val := fun h => hne (congrArg _ (Fin.ext h))
      rw [sampleArea_toNat, sampleArea_toNat]
      omega
    · rw [sampleArea_toNat, hcpu]
      omega
    · rw [sampleArea_toNat, hcpu]
      omega
    · exact absurd rfl hne

def sampleRegs : Regs
  | .gpr .sp => kernBase + 4096
  | .sstatus => 2
  | _ => 0

/-- An endless loop with interrupts on, on the boot stack. -/
def sampleMachine : Machine where
  regs := sampleRegs
  memory _ := 0
  pc := 0x400
  cur := .cpu ()
  live c := c = .cpu ()
  acts c := if c = .cpu () then [.call idleFunc sampleRegs] else []
  left _ _ := 0

theorem sampleMachine_boots : Boots sampleText samplePlacement sampleMachine where
  cur := rfl
  code := by
    have hblock : sampleText.block sampleMachine.pc = .body idleFunc := by decide
    refine ⟨idleFunc, rfl, rfl, hblock ▸ rfl, _, rfl, ⟨by decide, by decide⟩, by decide,
      by simp [Held, idleFunc], fun _ _ _ => rfl⟩
  alone c hc := ⟨decide_eq_false hc, if_neg hc⟩

def loopRegs : Regs
  | .gpr .sp => kernBase + 4080
  | _ => 0

/-- A loop with interrupts off that calls `swtch`, on the boot stack. -/
def switchMachine : Machine :=
  { sampleMachine with
    regs := loopRegs
    pc := 220
    acts := fun c => if c = .cpu () then [.call loopFunc sampleRegs] else [] }

theorem switchMachine_boots : Boots sampleText samplePlacement switchMachine where
  cur := rfl
  code := by
    have hblock : sampleText.block switchMachine.pc = .body loopFunc := by decide
    refine ⟨loopFunc, rfl, rfl, hblock ▸ rfl, _, rfl, ⟨by decide, by decide⟩, by decide,
      fun slot hslot => ?_, fun r hr _ => ?_⟩
    · obtain rfl := List.mem_singleton.mp hslot
      rfl
    · cases r <;> first | rfl | cases hr
  alone c hc := ⟨decide_eq_false hc, if_neg hc⟩

theorem sampleText_switching : sampleText.block 216 = .switching loopFunc := by decide

/-- The code that makes a process may write its context. -/
theorem switchMachine_prepares (p : Slot) (entry : Word) :
    ∃ m, Step sampleText samplePlacement switchMachine m ∧ m.pc = 216 ∧ m.cur = .cpu () ∧
      m.live = switchMachine.live ∧ Prepared sampleText samplePlacement p entry m.memory ∧
      m.regs (.gpr .a0) = samplePlacement.area (.cpu ()) ∧
      m.regs (.gpr .a1) = samplePlacement.area (.proc p) := by
  let regs : Regs := Function.update (freshRegs sampleText p entry) (.gpr .a0)
    (sampleArea (.proc p))
  obtain ⟨memory, -, hstored, hother⟩ :=
    run_stores .a0 regs switchMachine.memory contextRegs (List.Subset.refl _)
  have harea : regs (.gpr .a0) = sampleArea (.proc p) := Function.update_self ..
  rw [harea] at hstored hother
  have hblock : sampleText.block switchMachine.pc = .body loopFunc := by decide
  have hmemory : ∀ a, Protected samplePlacement switchMachine a →
      memory a = switchMachine.memory a := by
    intro a hprotected
    cases hprotected with
    | own hhigh hguarded =>
        refine hother a fun r hr heq => ?_
        obtain ⟨haddress, -⟩ := samplePlacement.area_toNat (.proc p) hr
        have hstack : samplePlacement.high switchMachine.cur = 0x80001000 := by decide
        have hnat := congrArg BitVec.toNat heq
        rw [hstack] at hhigh
        have hbase := sampleArea_toNat p
        change _ = (samplePlacement.area (.proc p) + contextOffset r).toNat at hnat
        change (samplePlacement.area (.proc p)).toNat = _ at hbase
        omega
    | stack c hc hlive => exact absurd (of_decide_eq_true hlive) hc
    | area c hc hlive => exact absurd (of_decide_eq_true hlive) hc
  obtain ⟨m, hstep, hpc, hcur, hlive, hmem, ha₀, ha₁⟩ :=
    arguments_step (hblock ▸ rfl : (sampleText.block switchMachine.pc).In loopFunc)
      sampleText_switching (.proc p) hmemory
  refine ⟨m, hstep, hpc, hcur, hlive, fun r hr => ?_, ha₀, ha₁⟩
  have hne : XReg.gpr r ≠ .gpr .a0 := by
    rintro ⟨⟩
    exact absurd hr (by decide)
  rw [hmem]
  exact (hstored r hr).trans (Function.update_of_ne hne ..)

theorem sample_room (hcur : m.cur = .cpu ()) {v : Word}
    (hv : 0x80000000 ≤ v.toNat ∧ v.toNat ≤ 0x80001000) :
    samplePlacement.low m.cur ≤ v.toNat ∧ v.toNat ≤ samplePlacement.high m.cur := by
  have hlow : samplePlacement.low (.cpu ()) = 0x80000000 := by decide
  rw [Placement.high, hcur, hlow]
  exact ⟨hv.1, hv.2⟩

theorem store_sp (slots : List (XReg × Nat)) :
    ∀ i ∈ slots.map StackFrame.store, ∀ c : Regs × Cells, (i.exec c).1 (.gpr .sp) =
      c.1 (.gpr .sp) := by
  intro i hi c
  obtain ⟨slot, -, rfl⟩ := List.mem_map.mp hi
  rfl

theorem load_sp (slots : List (XReg × Nat)) (hslots : ∀ slot ∈ slots, slot.1 ≠ .gpr .sp) :
    ∀ i ∈ slots.map StackFrame.load, ∀ c : Regs × Cells, (i.exec c).1 (.gpr .sp) =
      c.1 (.gpr .sp) := by
  intro i hi c
  obtain ⟨slot, hslot, rfl⟩ := List.mem_map.mp hi
  exact Function.update_of_ne (hslots slot hslot).symm ..

def sampleSlot : Slot := ⟨5, by decide⟩

/-- A process is made and started; its first action is to switch back. -/
theorem switch_transparent_sample : ∃ m m' n n' m₁ : Machine,
    ReflTransGen (Step sampleText samplePlacement) switchMachine m ∧
      Step sampleText samplePlacement m m' ∧ Begins sampleText sampleSlot 0x80000400 m' ∧
      ReflTransGen (Step sampleText samplePlacement) m' n ∧
      Step sampleText samplePlacement n n' ∧ n'.cur = .cpu () ∧
      Returned samplePlacement m₁ n' := by
  obtain ⟨m₁, h₁, pc₁, c₁, live₁, prepared, a₀, a₁⟩ := switchMachine_prepares sampleSlot 0x80000400
  have b₁ : sampleText.block m₁.pc = .switching loopFunc := pc₁ ▸ sampleText_switching
  -- The process becomes runnable, and the scheduler switches to it.
  obtain ⟨m₂, h₂, pc₂, c₂, regs₂, memory₂, live₂⟩ := start_step
    (b₁ ▸ rfl : (sampleText.block m₁.pc).In loopFunc) (live₁ ▸ rfl) (c₁ ▸ by decide) prepared
  have hcpu : m₂.cur = .cpu () := c₂.trans c₁
  have hrun₂ : ReflTransGen (Step sampleText samplePlacement) switchMachine m₂ :=
    (ReflTransGen.single h₁).tail h₂
  rw [← memory₂] at prepared
  rw [← regs₂, ← hcpu] at a₀
  rw [← regs₂] at a₁
  obtain ⟨m₃, h₃, c₃, live₃, pc₃, s₃⟩ := switch_step (pc₂ ▸ b₁) a₀ a₁ (hcpu ▸ by decide) live₂
  have hfirst := switch_transparent sampleText samplePlacement switchMachine m₂ m₃
    switchMachine_boots hrun₂ h₃ (by rw [c₃, hcpu]; decide)
  have begins : Begins sampleText sampleSlot 0x80000400 m₃ := by
    obtain ⟨mᵢ, -, -, -, -, ⟨g, hblock, returned⟩ | ⟨-, p, entry, -, begins⟩⟩ := hfirst
    · -- `forkret` stands behind no call of `swtch`.
      obtain ⟨hin, -⟩ := sampleText.switching_next hblock
      have hforkret : m₃.pc = sampleText.forkret := pc₃.trans (prepared .ra (by decide))
      rw [← returned.pc, hforkret, sampleText.thread_block] at hin
      exact hin.elim
    · obtain rfl : sampleSlot = p := Ctx.proc.inj (c₃.symm.trans begins.cur)
      obtain rfl : 0x80000400 = entry :=
        (s₃.trans (prepared .s0 (by decide))).symm.trans begins.s0
      exact begins
  -- `forkret` opens its frame and calls `swtch`.
  have hblock₃ : sampleText.block m₃.pc = .entering loopFunc loopFunc.opens :=
    begins.pc ▸ sampleText.thread_block
  have room₃ : samplePlacement.low m₃.cur ≤ (m₃.regs (.gpr .sp) + -BitVec.ofNat 64 loopFunc.size).toNat ∧
      (m₃.regs (.gpr .sp) + -BitVec.ofNat 64 loopFunc.size).toNat ≤ samplePlacement.high m₃.cur := by
    rw [begins.cur, begins.sp]
    decide
  obtain ⟨m₄, h₄, b₄, c₄, sp₄, -, live₄⟩ := addi_step (.entering loopFunc)
    sampleText.entering_next (fun _ _ => rfl) hblock₃ room₃.1 room₃.2
  rw [← c₄, ← sp₄] at room₃
  obtain ⟨m₅, h₅, b₅, c₅, -, -, live₅⟩ := straight_run (.entering loopFunc)
    sampleText.entering_next (fun _ _ => rfl) (loopFunc.slots.map StackFrame.store) []
    (store_sp _) b₄ room₃.1 room₃.2
  obtain ⟨m₆, h₆, pc₆, c₆, live₆, -, a₀', a₁'⟩ :=
    arguments_step (b₅ ▸ rfl : (sampleText.block m₅.pc).In loopFunc) sampleText_switching
      (.cpu ()) (fun _ _ => rfl)
  have hcur₆ : m₆.cur = .proc sampleSlot := c₆.trans (c₅.trans (c₄.trans c₃))
  have hlive₆ : m₆.live (.cpu ()) = true := by
    rw [live₆, live₅, live₄, ← hcpu]
    exact live₃
  obtain ⟨m₇, h₇, c₇, -⟩ := switch_step (pc₆ ▸ sampleText_switching)
    (c₆ ▸ a₀') a₁' (hcur₆ ▸ by decide) hlive₆
  have hrun₆ : ReflTransGen (Step sampleText samplePlacement) m₃ m₆ :=
    ((ReflTransGen.single h₄).trans h₅).tail h₆
  obtain ⟨mᵢ, -, -, -, -, ⟨-, -, returned⟩ | ⟨-, p, entry, -, back⟩⟩ :=
    switch_transparent sampleText samplePlacement switchMachine m₆ m₇ switchMachine_boots
      ((hrun₂.tail h₃).trans hrun₆) h₇ (by rw [c₇, hcur₆]; decide)
  · exact ⟨m₂, m₃, m₆, m₇, mᵢ, hrun₂, h₃, begins, hrun₆, h₇, c₇, returned⟩
  · cases c₇.symm.trans back.cur

/-- An interrupt, its handler and the return. -/
theorem preemption_transparent_sample : ∃ m m' m₁ : Machine,
    ReflTransGen (Step sampleText samplePlacement) (sampleMachine.interrupted sampleText) m ∧
      sampleText.block m.pc = .restoring [] ∧ Step sampleText samplePlacement m m' ∧
      Resumes samplePlacement m₁ m' := by
  have hcur₁ : (sampleMachine.interrupted sampleText).cur = .cpu () := rfl
  have hsp₁ : (sampleMachine.interrupted sampleText).regs (.gpr .sp) = 0x80001000 := by decide
  have hblock₁ : sampleText.block (sampleMachine.interrupted sampleText).pc =
      .saving kernelvecSaves := sampleText.kernelvec_block
  have hstart : Step sampleText samplePlacement sampleMachine
      (sampleMachine.interrupted sampleText) := .interrupt (by decide)
  generalize hm₁ : sampleMachine.interrupted sampleText = m₁ at *
  -- `kernelvec` up to the call.
  have room₁ := sample_room hcur₁ (v := m₁.regs (.gpr .sp) + -256) (by rw [hsp₁]; decide)
  obtain ⟨m₂, h₂, b₂, c₂, sp₂, -⟩ := addi_step .saving sampleText.saving_next
    (fun _ _ => rfl) hblock₁ room₁.1 room₁.2
  rw [hcur₁] at c₂
  rw [hsp₁] at sp₂
  have room₂ := sample_room c₂ (v := m₂.regs (.gpr .sp)) (by rw [sp₂]; decide)
  obtain ⟨m₃, h₃, b₃, c₃, sp₃, -⟩ := straight_run .saving sampleText.saving_next
    (fun _ _ => rfl) (kernelvecFrame.slots.map StackFrame.store) [] (store_sp _) b₂ room₂.1
    room₂.2
  rw [c₂] at c₃
  rw [sp₂] at sp₃
  -- `kerneltrap`, which does nothing.
  have hlinked : m₃.linked (.gpr .sp) = m₃.regs (.gpr .sp) := linked_of_ne _ _ (by decide)
  obtain ⟨m₄, h₄, b₄, c₄, sp₄, a₄⟩ : ∃ m₄, Step sampleText samplePlacement m₃ m₄ ∧
      sampleText.block m₄.pc = .entering trapFunc trapFunc.opens ∧ m₄.cur = m₃.cur ∧
      m₄.regs (.gpr .sp) = m₃.regs (.gpr .sp) ∧
      m₄.acts m₄.cur = .call trapFunc m₃.linked :: m₃.acts m₃.cur :=
    ⟨_, .handle b₃, sampleText.handler_block, rfl, hlinked, Function.update_self ..⟩
  rw [c₃] at c₄
  rw [sp₃] at sp₄
  have room₄ := sample_room c₄ (v := m₄.regs (.gpr .sp) + -48) (by rw [sp₄]; decide)
  obtain ⟨m₅, h₅, b₅, c₅, sp₅, a₅, -⟩ := addi_step (.entering trapFunc) sampleText.entering_next
    (fun _ _ => rfl) b₄ room₄.1 room₄.2
  rw [c₄] at c₅
  rw [sp₄] at sp₅
  have room₅ := sample_room c₅ (v := m₅.regs (.gpr .sp)) (by rw [sp₅]; decide)
  obtain ⟨m₆, h₆, b₆, c₆, sp₆, a₆, -⟩ := straight_run (.entering trapFunc) sampleText.entering_next
    (fun _ _ => rfl) (trapFunc.slots.map StackFrame.store) [] (store_sp _) b₅ room₅.1 room₅.2
  rw [c₅] at c₆
  rw [sp₅] at sp₆
  obtain ⟨m₇, h₇, b₇, c₇, sp₇, a₇⟩ : ∃ m₇, Step sampleText samplePlacement m₆ m₇ ∧
      sampleText.block m₇.pc = .leaving trapFunc (trapFunc.closes trapFunc.slots) ∧
      m₇.cur = m₆.cur ∧ m₇.regs (.gpr .sp) = m₆.regs (.gpr .sp) ∧ m₇.acts = m₆.acts := by
    let regs : Regs := Function.update m₆.regs .sstatus 0
    have hblock : sampleText.block 180 = .leaving trapFunc (trapFunc.closes trapFunc.slots) := by
      decide
    have hgpr : ∀ r, regs (.gpr r) = m₆.regs (.gpr r) := fun r =>
      Function.update_of_ne (by simp) ..
    have hmasked : regs .sstatus = 0 := Function.update_self ..
    refine ⟨{ m₆ with regs, pc := 180 }, .compute trapFunc regs m₆.memory 180 (b₆ ▸ rfl)
      (.inr ⟨hblock, rfl, fun _ => ?_⟩) (hgpr .sp) (fun r _ _ => hgpr r) (fun _ _ => rfl),
      hblock, rfl, hgpr .sp, rfl⟩
    rw [hmasked]
    decide
  rw [c₆] at c₇
  rw [sp₆] at sp₇
  have room₇ := sample_room c₇ (v := m₇.regs (.gpr .sp)) (by rw [sp₇]; decide)
  obtain ⟨m₈, h₈, b₈, c₈, sp₈, a₈, -⟩ := straight_run (.leaving trapFunc) sampleText.leaving_next
    (fun _ _ => rfl) (trapFunc.slots.map StackFrame.load) [.addi .sp 48]
    (load_sp _ trapFunc.sp_free) b₇ room₇.1 room₇.2
  rw [c₇] at c₈
  rw [sp₇] at sp₈
  have room₈ := sample_room c₈ (v := m₈.regs (.gpr .sp) + 48) (by rw [sp₈]; decide)
  obtain ⟨m₉, h₉, b₉, c₉, sp₉, a₉, -⟩ := addi_step (.leaving trapFunc) sampleText.leaving_next
    (fun _ _ => rfl) b₈ room₈.1 room₈.2
  rw [c₈] at c₉
  rw [sp₈] at sp₉
  -- The return address is the one that the call has left.
  have hrun₃ : ReflTransGen (Step sampleText samplePlacement) m₁ m₃ := .head h₂ h₃
  have hrun₆ : ReflTransGen (Step sampleText samplePlacement) m₁ m₆ :=
    ((hrun₃.tail h₄).tail h₅).trans h₆
  have hrun₉ : ReflTransGen (Step sampleText samplePlacement) m₁ m₉ :=
    ((hrun₆.tail h₇).trans h₈).tail h₉
  have hacts₉ : m₉.acts m₉.cur = .call trapFunc m₃.linked :: m₃.acts m₃.cur := by
    rw [a₉, a₈, a₇, a₆, a₅, c₉, ← c₄]
    exact a₄
  have valid := (sound_run sampleMachine_boots (.head hstart hrun₉)).running
  rw [hacts₉] at valid
  obtain ⟨-, -, -, -, calls, -⟩ := valid
  rw [b₉] at calls
  have hra : m₉.regs (.gpr .ra) = m₃.pc + 4 :=
    (calls.2.2.1.done.2 (.gpr .ra, 40) (by decide)).trans (Function.update_self ..)
  obtain ⟨m, h, b, c, sp⟩ : ∃ m, Step sampleText samplePlacement m₉ m ∧
      sampleText.block m.pc = .restoring kernelvecRestores ∧ m.cur = m₉.cur ∧
      m.regs (.gpr .sp) = m₉.regs (.gpr .sp) :=
    ⟨_, .ret trapFunc b₉, hra ▸ sampleText.saving_return b₃, rfl, rfl⟩
  rw [c₉] at c
  rw [sp₉] at sp
  have room := sample_room c (v := m.regs (.gpr .sp)) (by rw [sp]; decide)
  -- `kernelvec` after the call.
  rw [kernelvecRestores_eq] at b
  obtain ⟨m', h', b', c', sp', -⟩ := straight_run .restoring sampleText.restoring_next
    (fun _ _ => rfl) (kernelvecReloads.map StackFrame.load) [.addi .sp 256]
    (load_sp _ (by decide)) b room.1 room.2
  rw [c] at c'
  rw [sp] at sp'
  have room' := sample_room c' (v := m'.regs (.gpr .sp) + 256) (by rw [sp']; decide)
  obtain ⟨m'', h'', b'', -⟩ := addi_step .restoring sampleText.restoring_next
    (fun _ _ => rfl) b' room'.1 room'.2
  have hrun : ReflTransGen (Step sampleText samplePlacement) m₁ m'' :=
    ((hrun₉.tail h).trans h').tail h''
  obtain ⟨mᵢ, -, -, -, resumes⟩ := preemption_transparent sampleText samplePlacement
    sampleMachine m'' _ sampleMachine_boots (.head hstart hrun) b'' (.sret b'')
  exact ⟨m'', _, mᵢ, hrun, b'', .sret b'', resumes⟩

end Xv6Kernel.Process.Registers
