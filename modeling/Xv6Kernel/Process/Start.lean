import Xv6Kernel.Mm.Walker

/-!
# From reset to main

entry.S and start.c, and what they leave in the registers of machine mode.  After them the
hart is out of machine mode for good: whatever the kernel does then, no exception of it and
no interrupt of a device leads back.
-/

namespace Xv6Kernel.Process.Start

open Xv6Kernel.Mm Relation

/-- What the linker knows. -/
structure Symbols where
  sbss : Word
  ebss : Word
  stack0 : Word
  main : Word

/-! ## entry.S -/

inductive EntryReg
  | a0 | a1 | sp
  deriving DecidableEq, Repr

inductive Insn
  /-- `la` and `li`. -/
  | load (r : EntryReg) (x : Word)
  | sdZero (base : EntryReg)
  | addi (r : EntryReg) (n : Word)
  | blt (r s : EntryReg) (line : Nat)
  | csrrMhartid (r : EntryReg)
  | mul (r s : EntryReg)
  | add (r s : EntryReg)
  | callStart

/-- The hart at a line of entry.S; a memory cell is the word at a multiple of eight. -/
structure EntryState where
  line : Nat
  regs : EntryReg → Word
  cells : Word → Word

def bssLoop : Nat := 2

def entry (img : Symbols) : List Insn :=
  [.load .a0 img.sbss,
    .load .a1 img.ebss,
    .sdZero .a0,
    .addi .a0 8,
    .blt .a0 .a1 bssLoop,
    .load .sp img.stack0,
    .load .a0 (1024 * 4),
    .csrrMhartid .a1,
    .addi .a1 1,
    .mul .a0 .a1,
    .add .sp .a0,
    .callStart]

namespace EntryState

variable (s : EntryState)

def set (r : EntryReg) (x : Word) : EntryState :=
  { s with line := s.line + 1, regs := Function.update s.regs r x }

/-- The next line, up to the call. -/
def step (img : Symbols) (mhartid : Word) : Option EntryState :=
  match (entry img)[s.line]? with
  | some (.load r x) => some (s.set r x)
  | some (.sdZero base) =>
      some { s with line := s.line + 1, cells := Function.update s.cells (s.regs base) 0 }
  | some (.addi r n) => some (s.set r (s.regs r + n))
  | some (.blt r t line) =>
      some { s with line := if (s.regs r).toInt < (s.regs t).toInt then line else s.line + 1 }
  | some (.csrrMhartid r) => some (s.set r mhartid)
  | some (.mul r t) => some (s.set r (s.regs r * s.regs t))
  | some (.add r t) => some (s.set r (s.regs r + s.regs t))
  | some .callStart | none => none

/-- The hart executes entry.S up to `call start`. -/
def Runs (img : Symbols) (mhartid : Word) (s s' : EntryState) : Prop :=
  ReflTransGen (fun s s' => s.step img mhartid = some s') s s' ∧
    (entry img)[s'.line]? = some .callStart

end EntryState

section Entry

variable {img : Symbols} (mhartid : Word) {s : EntryState}

/-- What the loop clears when it begins at an address. -/
def Cleared (img : Symbols) (start a : Word) : Prop :=
  a = start ∨ (start.toNat ≤ a.toNat ∧ a.toNat < img.ebss.toNat ∧
    8 ∣ a.toNat - start.toNat)

/-- The symbols lie where signed and unsigned addresses are the same. -/
structure Linked (img : Symbols) : Prop where
  sbss : img.sbss.toNat + 8 < 2 ^ 63
  ebss : img.ebss.toNat + 8 < 2 ^ 63

theorem toInt_lt_iff {x y : Word} (hx : x.toNat < 2 ^ 63) (hy : y.toNat < 2 ^ 63) :
    x.toInt < y.toInt ↔ x.toNat < y.toNat := by
  rw [BitVec.toInt_eq_toNat_of_lt (by omega), BitVec.toInt_eq_toNat_of_lt (by omega)]
  omega

/-- The hart after one round of the loop. -/
def bssRound (img : Symbols) (s : EntryState) : EntryState where
  line := if (s.regs .a0 + 8).toInt < img.ebss.toInt then bssLoop else 5
  regs := Function.update s.regs .a0 (s.regs .a0 + 8)
  cells := Function.update s.cells (s.regs .a0) 0

theorem bssRound_runs (hline : s.line = bssLoop) (hlimit : s.regs .a1 = img.ebss) :
    ReflTransGen (fun s s' => EntryState.step s img mhartid = some s') s (bssRound img s) := by
  have hstore : s.step img mhartid =
      some { s with line := 3, cells := Function.update s.cells (s.regs .a0) 0 } := by
    simp [EntryState.step, hline, entry, bssLoop]
  refine .head hstore (.head rfl (.single ?_))
  simp [EntryState.step, EntryState.set, entry, bssRound, hlimit]

theorem bssLoop_runs (linked : Linked img) (hline : s.line = bssLoop)
    (hlimit : s.regs .a1 = img.ebss) (hstart : (s.regs .a0).toNat + 8 < 2 ^ 63) :
    ∃ s', ReflTransGen (fun s s' => EntryState.step s img mhartid = some s') s s' ∧
      s'.line = 5 ∧ ∀ a, (Cleared img (s.regs .a0) a → s'.cells a = 0) ∧
        (¬ Cleared img (s.regs .a0) a → s'.cells a = s.cells a) := by
  induction hn : img.ebss.toNat - (s.regs .a0).toNat using Nat.strong_induction_on
    generalizing s with
  | _ n ih =>
  have hround := bssRound_runs mhartid hline hlimit
  have hnext : (s.regs .a0 + 8).toNat = (s.regs .a0).toNat + 8 := by
    rw [BitVec.toNat_add]
    simp
    omega
  have hcmp := linked.ebss
  have hbranch := toInt_lt_iff (x := s.regs .a0 + 8) (y := img.ebss) (by omega) (by omega)
  have hcells : ∀ a, a ≠ s.regs .a0 → (bssRound img s).cells a = s.cells a :=
    fun a hne => Function.update_of_ne hne ..
  have hzero : (bssRound img s).cells (s.regs .a0) = 0 := Function.update_self ..
  have hregs : (bssRound img s).regs .a0 = s.regs .a0 + 8 := by simp [bssRound]
  by_cases hmore : (s.regs .a0 + 8).toNat < img.ebss.toNat
  · obtain ⟨s', hrun, hline', hafter⟩ := ih (img.ebss.toNat - (s.regs .a0 + 8).toNat)
      (by omega) (s := bssRound img s) (if_pos (hbranch.mpr hmore)) hlimit
      (by rw [hregs]; omega) (by rw [hregs])
    rw [hregs] at hafter
    refine ⟨s', hround.trans hrun, hline', fun a => ?_⟩
    -- A round clears the first cell; the rounds after it clear the others.
    have hsplit : Cleared img (s.regs .a0) a ↔
        a = s.regs .a0 ∨ Cleared img (s.regs .a0 + 8) a := by
      simp only [Cleared, hnext, ← BitVec.toNat_inj]
      omega
    by_cases hrest : Cleared img (s.regs .a0 + 8) a
    · exact ⟨fun _ => (hafter a).1 hrest, fun hnot => absurd (hsplit.mpr (.inr hrest)) hnot⟩
    · rw [(hafter a).2 hrest, hsplit]
      refine ⟨?_, fun hnot => hcells a fun heq => hnot (.inl heq)⟩
      rintro (rfl | hcleared)
      · exact hzero
      · exact absurd hcleared hrest
  · refine ⟨bssRound img s, hround, if_neg (hbranch.not.mpr hmore), fun a => ⟨?_, ?_⟩⟩
    · rintro (rfl | ⟨hle, hlt, hdvd⟩)
      · exact hzero
      · have heq : a = s.regs .a0 := BitVec.eq_of_toNat_eq (by omega)
        rw [heq]
        exact hzero
    · intro hnot
      exact hcells a fun heq => hnot (.inl heq)

/-- entry.S clears what lies below `ebss` and gives the hart its part of `stack0`. -/
theorem entry_runs (linked : Linked img) (hline : s.line = 0) :
    ∃ s', EntryState.Runs img mhartid s s' ∧
      s'.regs .sp = img.stack0 + 4096 * (mhartid + 1) ∧
      ∀ a, (Cleared img img.sbss a → s'.cells a = 0) ∧
        (¬ Cleared img img.sbss a → s'.cells a = s.cells a) := by
  obtain ⟨line, regs, cells⟩ := s
  obtain rfl : line = 0 := hline
  have hloads : ReflTransGen (fun s s' => EntryState.step s img mhartid = some s')
      ⟨0, regs, cells⟩ (((EntryState.mk 0 regs cells).set .a0 img.sbss).set .a1 img.ebss) :=
    .head rfl (.single rfl)
  obtain ⟨⟨line, regs', cells'⟩, hloop, hend, hcells⟩ :=
    bssLoop_runs mhartid linked
      (s := ((EntryState.mk 0 regs cells).set .a0 img.sbss).set .a1 img.ebss) rfl rfl linked.sbss
  obtain rfl : line = 5 := hend
  have hstack : ReflTransGen (fun s s' => EntryState.step s img mhartid = some s')
      ⟨5, regs', cells'⟩ _ :=
    .head rfl (.head rfl (.head rfl (.head rfl (.head rfl (.single rfl)))))
  exact ⟨_, ⟨(hloads.trans hloop).trans hstack, rfl⟩, rfl, hcells⟩

end Entry

/-! ## The hart between its modes -/

inductive Privilege
  | user | supervisor | machine
  deriving DecidableEq, Repr

/-- The control registers that start.c writes and that traps use. -/
structure Hart where
  mode : Privilege
  pc : Word
  mstatus : Word
  mepc : Word
  mtvec : Word
  medeleg : Word
  mideleg : Word
  mie : Word
  mip : Word
  menvcfg : Word
  mcounteren : Word
  pmpaddr0 : Word
  pmpcfg0 : Word
  satp : Word
  stvec : Word
  sepc : Word
  scause : Word
  stimecmp : Word

def mstatusMppMask : Word := 3 <<< 11
def mstatusMppS : Word := 1 <<< 11
def sstatusSie : Word := 1 <<< 1
def sieStie : Word := 1 <<< 5

/-- What `start` delegates: the timer and the PLIC. -/
def delegated : Word := (1 : Word) <<< 5 ||| (1 : Word) <<< 9

/-- The bits of `mstatus` that `sstatus` shows. -/
def sstatusMask : Word := 0x80000003000DE762

def setBit (x : Word) (i : Nat) (b : Bool) : Word :=
  if b then x ||| BitVec.twoPow 64 i else x &&& ~~~(BitVec.twoPow 64 i)

namespace Hart

variable (h : Hart)

def sstatus : Word := h.mstatus &&& sstatusMask

def wSstatus (x : Word) : Hart :=
  { h with mstatus := h.mstatus &&& ~~~sstatusMask ||| x &&& sstatusMask }

/-- `sie` shows the interrupts of `mie` that are delegated. -/
def sie : Word := h.mie &&& h.mideleg

def wSie (x : Word) : Hart :=
  { h with mie := h.mie &&& ~~~h.mideleg ||| x &&& h.mideleg }

def intrOn : Hart := h.wSstatus (h.sstatus ||| sstatusSie)

/-- `timer_init`, less its `initlock`. -/
def timerInit : Hart :=
  let h := h.wSie (h.sie ||| sieStie)
  let h := { h with menvcfg := h.menvcfg ||| (1 : Word) <<< 63 }
  { h with mcounteren := h.mcounteren ||| 2 }

/-- The mode of the two bits of `MPP`; 2 is no mode. -/
def mpp : Privilege :=
  match h.mstatus.getLsbD 12, h.mstatus.getLsbD 11 with
  | true, true => .machine
  | false, true => .supervisor
  | _, false => .user

/-- `MIE`, `MPIE`, `MPP` and `MPRV` are bits 3, 7, 11 and 12, and 17 of `mstatus`. -/
def mret : Hart :=
  let status := setBit h.mstatus 3 (h.mstatus.getLsbD 7)
  let status := setBit (setBit (setBit status 7 true) 11 false) 12 false
  { h with
    mode := h.mpp
    pc := h.mepc
    mstatus := if h.mpp = .machine then status else setBit status 17 false }

def start (img : Symbols) (time : Word) : Hart :=
  let x := h.mstatus
  let x := x &&& ~~~mstatusMppMask
  let x := x ||| mstatusMppS
  let h := { h with mstatus := x }
  let h := { h with mepc := img.main }
  let h := { h with satp := 0 }
  let h := { h with medeleg := 0xffff }
  let h := { h with mideleg := delegated }
  let h := { h with pmpaddr0 := 0x3fffffffffffff }
  let h := { h with pmpcfg0 := 0xf }
  let h := h.intrOn
  let h := h.timerInit
  let h := { h with mcounteren := 7 }
  let h := { h with stimecmp := time + 10000 }
  h.mret

/-! ## Traps -/

def exceptionTarget (cause : Nat) : Privilege :=
  if h.mode ≠ .machine ∧ h.medeleg.getLsbD cause = true then .supervisor else .machine

/-- Where a pending and enabled interrupt is taken, if it is taken now. -/
def interruptTarget (i : Nat) : Option Privilege :=
  if h.mip.getLsbD i = true ∧ h.mie.getLsbD i = true then
    if h.mideleg.getLsbD i = true then
      if h.mode = .user ∨ (h.mode = .supervisor ∧ h.mstatus.getLsbD 1 = true) then
        some .supervisor
      else none
    else if h.mode ≠ .machine ∨ h.mstatus.getLsbD 3 = true then some .machine
    else none
  else none

/-- `SIE`, `SPIE` and `SPP` are bits 1, 5 and 8 of `mstatus`. -/
def trapSupervisor (cause : Word) : Hart :=
  { h with
    mode := .supervisor
    pc := h.stvec
    sepc := h.pc
    scause := cause
    mstatus := setBit (setBit (setBit h.mstatus 5 (h.mstatus.getLsbD 1)) 1 false) 8
      (decide (h.mode = .supervisor)) }

def trapMachine : Hart :=
  { h with
    mode := .machine
    pc := h.mtvec
    mepc := h.pc
    mstatus := setBit (setBit (setBit (setBit h.mstatus 7 (h.mstatus.getLsbD 3)) 3 false) 11
      (decide (h.mode ≠ .user))) 12 (decide (h.mode = .machine)) }

def trap (target : Privilege) (cause : Word) : Hart :=
  if target = .machine then h.trapMachine else h.trapSupervisor cause

def sret : Hart :=
  { h with
    mode := if h.mstatus.getLsbD 8 = true then .supervisor else .user
    pc := h.sepc
    mstatus := setBit (setBit (setBit (setBit h.mstatus 1 (h.mstatus.getLsbD 5)) 5 true) 8
      false) 17 false }

/-- What supervisor mode may write. -/
inductive SCsr
  | sstatus | sie | satp | stvec | sepc | scause | stimecmp
  deriving DecidableEq, Repr

def write (x : Word) : SCsr → Hart
  | .sstatus => h.wSstatus x
  | .sie => h.wSie x
  | .satp => { h with satp := x }
  | .stvec => { h with stvec := x }
  | .sepc => { h with sepc := x }
  | .scause => { h with scause := x }
  | .stimecmp => { h with stimecmp := x }

/-- Anything the hart may do outside machine mode: its code, a write to a register of
supervisor mode, `sret`, a change of what is pending, an exception of one of the sixteen
kinds, an interrupt. -/
inductive Step : Hart → Hart → Prop
  | code {h : Hart} (pc : Word) : Step h { h with pc := pc }
  | write {h : Hart} (hmode : h.mode ≠ .user) (csr : SCsr) (x : Word) : Step h (h.write x csr)
  | sret {h : Hart} (hmode : h.mode ≠ .user) : Step h h.sret
  | pending {h : Hart} (mip : Word) : Step h { h with mip := mip }
  | exception {h : Hart} {cause : Nat} (hcause : cause < 16) :
      Step h (h.trap (h.exceptionTarget cause) (BitVec.ofNat 64 cause))
  | interrupt {h : Hart} {i : Nat} {target : Privilege}
      (htaken : h.interruptTarget i = some target) :
      Step h (h.trap target ((1 : Word) <<< 63 ||| BitVec.ofNat 64 i))

/-! ## What start leaves -/

theorem setBit_bit (x : Word) {i : Nat} (hi : i < 64) (b : Bool) {j : Nat} (hj : j < 64) :
    (setBit x i b).getLsbD j = if j = i then b else x.getLsbD j := by
  unfold setBit
  split
  · next hb =>
      simp only [BitVec.getLsbD_or, BitVec.getLsbD_twoPow, hb]
      split
      · next heq => simp [heq, hi]
      · next hne => simp [Ne.symm hne]
  · next hb =>
      simp only [BitVec.getLsbD_and, BitVec.getLsbD_not, BitVec.getLsbD_twoPow, hj]
      split
      · next heq => simp [heq, hi, hb]
      · next hne => simp [Ne.symm hne]

theorem insert_or {y mask b : Word} (h : b &&& mask = b) :
    y &&& ~~~mask ||| (y &&& mask ||| b) &&& mask = y ||| b := by
  ext i hi
  have hbit := congrArg (·[i]) h
  simp only [BitVec.getElem_and] at hbit
  simp only [BitVec.getElem_or, BitVec.getElem_and, BitVec.getElem_not]
  revert hbit
  cases y[i] <;> cases mask[i] <;> cases b[i] <;> simp

theorem intrOn_eq : h.intrOn = { h with mstatus := h.mstatus ||| sstatusSie } := by
  rw [intrOn, wSstatus, sstatus, insert_or (by decide)]

theorem timerInit_eq (hdelegated : h.mideleg = delegated) :
    h.timerInit = { h with
      mie := h.mie ||| sieStie
      menvcfg := h.menvcfg ||| (1 : Word) <<< 63
      mcounteren := h.mcounteren ||| 2 } := by
  have hbit : sieStie &&& h.mideleg = sieStie := by
    rw [hdelegated]
    decide
  rw [timerInit, wSie, sie, insert_or hbit]

/-- The hart as `start` leaves it, but for `mstatus`. -/
theorem start_eq (img : Symbols) (time : Word) : ∃ status,
    h.start img time = { h with
      mode := .supervisor
      pc := img.main
      mstatus := status
      mepc := img.main
      satp := 0
      medeleg := 0xffff
      mideleg := delegated
      pmpaddr0 := 0x3fffffffffffff
      pmpcfg0 := 0xf
      mie := h.mie ||| sieStie
      menvcfg := h.menvcfg ||| (1 : Word) <<< 63
      mcounteren := 7
      stimecmp := time + 10000 } ∧ status.getLsbD 1 = true := by
  have hclear : mstatusMppMask.getLsbD 11 = true ∧ mstatusMppMask.getLsbD 12 = true := by decide
  have hset : mstatusMppS.getLsbD 11 = true ∧ mstatusMppS.getLsbD 12 = false := by decide
  have hon : sstatusSie.getLsbD 1 = true ∧ sstatusSie.getLsbD 12 = false := by decide
  set x := h.mstatus &&& ~~~mstatusMppMask ||| mstatusMppS ||| sstatusSie with hx
  have hsie : x.getLsbD 1 = true := by simp [hx, hon]
  have hmpp : x.getLsbD 12 = false ∧ x.getLsbD 11 = true := by
    simp only [hx, BitVec.getLsbD_or, BitVec.getLsbD_and, BitVec.getLsbD_not, hclear, hset, hon]
    simp
  refine ⟨setBit (setBit (setBit (setBit (setBit x 3 (x.getLsbD 7)) 7 true) 11 false) 12 false)
    17 false, ?_, ?_⟩
  · simp only [start, intrOn_eq]
    rw [timerInit_eq _ rfl]
    simp only [mret, mpp, ← hx, hmpp, reduceCtorEq, if_false]
  · simp only [setBit_bit, Nat.reduceLT, Nat.reduceEqDiff, if_false, hsie]

/-! ## Never in machine mode again -/

/-- The first entry of the PMP lets an access pass; `TOR` compares four-byte units. -/
def Allows (access : Access) (pa : Word) : Prop :=
  h.pmpcfg0.getLsbD 3 = true ∧ h.pmpcfg0.getLsbD 4 = false ∧
    pa.toNat < 4 * h.pmpaddr0.toNat ∧
    h.pmpcfg0.getLsbD (match access with | .load => 0 | .store => 1 | .fetch => 2) = true

/-- The registers of machine mode as `start` left them. -/
structure Confined : Prop where
  mode : h.mode ≠ .machine
  medeleg : h.medeleg = 0xffff
  mideleg : h.mideleg = delegated
  mie : h.mie &&& ~~~delegated = 0
  pmpaddr0 : h.pmpaddr0 = 0x3fffffffffffff
  pmpcfg0 : h.pmpcfg0 = 0xf

namespace Confined

variable {h h' : Hart}

theorem exceptionTarget (hc : Confined h) {cause : Nat} (hcause : cause < 16) :
    h.exceptionTarget cause = .supervisor := by
  have hdelegated : ∀ c : Fin 16, (0xffff : Word).getLsbD c.val = true := by decide
  rw [Hart.exceptionTarget, if_pos ⟨hc.mode, hc.medeleg ▸ hdelegated ⟨cause, hcause⟩⟩]

theorem delegated_bit {i : Nat} (hi : i < 64) :
    delegated.getLsbD i = true ↔ i = 5 ∨ i = 9 := by
  have hall : ∀ c : Fin 64, delegated.getLsbD c.val = true ↔ c.val = 5 ∨ c.val = 9 := by decide
  exact hall ⟨i, hi⟩

/-- Only the timer and the PLIC interrupt, and supervisor mode handles them. -/
theorem interruptTarget (hc : Confined h) {i : Nat} {target : Privilege}
    (htaken : h.interruptTarget i = some target) :
    target = .supervisor ∧ (i = 5 ∨ i = 9) := by
  obtain ⟨hmie, hrest⟩ : h.mie.getLsbD i = true ∧
      (if h.mideleg.getLsbD i = true then
        if h.mode = .user ∨ (h.mode = .supervisor ∧ h.mstatus.getLsbD 1 = true) then
          some Privilege.supervisor
        else none
      else if h.mode ≠ .machine ∨ h.mstatus.getLsbD 3 = true then some .machine
      else none) = some target := by
    rw [Hart.interruptTarget] at htaken
    split at htaken
    · next henabled => exact ⟨henabled.2, htaken⟩
    · cases htaken
  have hi : i < 64 := BitVec.lt_of_getLsbD hmie
  have hbit : delegated.getLsbD i = true := by
    have hzero := congrArg (·.getLsbD i) hc.mie
    simpa [hmie, hi] using hzero
  rw [hc.mideleg, if_pos hbit] at hrest
  refine ⟨?_, (delegated_bit hi).mp hbit⟩
  split at hrest
  · exact (Option.some_inj.mp hrest).symm
  · cases hrest

theorem trap (hc : Confined h) (cause : Word) : Confined (h.trap .supervisor cause) :=
  ⟨nofun, hc.medeleg, hc.mideleg, hc.mie, hc.pmpaddr0, hc.pmpcfg0⟩

theorem step (hc : Confined h) (hstep : Step h h') : Confined h' := by
  cases hstep with
  | code pc => exact ⟨hc.mode, hc.medeleg, hc.mideleg, hc.mie, hc.pmpaddr0, hc.pmpcfg0⟩
  | pending mip => exact ⟨hc.mode, hc.medeleg, hc.mideleg, hc.mie, hc.pmpaddr0, hc.pmpcfg0⟩
  | write hmode csr x =>
      cases csr with
      | sie =>
          refine ⟨hc.mode, hc.medeleg, hc.mideleg, ?_, hc.pmpaddr0, hc.pmpcfg0⟩
          simp [Hart.write, wSie, hc.mideleg, hc.mie, BitVec.and_assoc]
      | _ => exact ⟨hc.mode, hc.medeleg, hc.mideleg, hc.mie, hc.pmpaddr0, hc.pmpcfg0⟩
  | sret hmode =>
      refine ⟨?_, hc.medeleg, hc.mideleg, hc.mie, hc.pmpaddr0, hc.pmpcfg0⟩
      simp only [Hart.sret]
      split <;> simp
  | exception hcause =>
      rw [hc.exceptionTarget hcause]
      exact hc.trap _
  | interrupt htaken =>
      rw [(hc.interruptTarget htaken).1]
      exact hc.trap _

theorem run (hc : Confined h) (hrun : ReflTransGen Step h h') : Confined h' := by
  induction hrun with
  | refl => exact hc
  | tail _ hstep ih => exact ih.step hstep

theorem allows (hc : Confined h) (access : Access) {pa : Word} (hpa : pa.toNat < 2 ^ 56 - 4) :
    h.Allows access pa := by
  unfold Allows
  rw [hc.pmpcfg0, hc.pmpaddr0]
  refine ⟨by decide, by decide, lt_of_lt_of_le hpa (by decide), ?_⟩
  cases access <;> decide

end Confined

/-- What `main` finds. -/
structure AtMain (img : Symbols) (time : Word) (reset h : Hart) : Prop where
  mode : h.mode = .supervisor
  pc : h.pc = img.main
  sie : h.mstatus.getLsbD 1 = true
  mie : h.mie = reset.mie ||| sieStie
  stimecmp : h.stimecmp = time + 10000
  stvec : h.stvec = reset.stvec
  bare : ∀ walker : Walker, walker.satp = h.satp → ∀ access word va,
    walker.translate access word va = some va

theorem start_atMain (img : Symbols) (time : Word) : AtMain img time h (h.start img time) := by
  obtain ⟨status, hstart, hsie⟩ := h.start_eq img time
  rw [hstart]
  refine ⟨rfl, rfl, hsie, rfl, rfl, rfl, fun walker hsatp access word va => ?_⟩
  have hzero : walker.satp = 0 := hsatp
  have hmode : (0 : Word) >>> 60 = 0 := by decide
  rw [Walker.translate, hzero, if_pos hmode]

theorem start_confined (hmie : h.mie &&& ~~~delegated = 0) (img : Symbols) (time : Word) :
    Confined (h.start img time) := by
  obtain ⟨status, hstart, -⟩ := h.start_eq img time
  rw [hstart]
  refine ⟨nofun, rfl, rfl, ?_, rfl, rfl⟩
  have hstie : sieStie &&& ~~~delegated = 0 := by decide
  simp only
  rw [BitVec.and_comm, BitVec.and_or_distrib_left, BitVec.and_comm, hmie, BitVec.and_comm, hstie]
  rfl

end Hart

/-- Whatever the registers hold at reset, provided only that no interrupt is enabled that
belongs to machine mode. -/
theorem machine_mode_left {img : Symbols} (linked : Linked img) {reset : Hart}
    (hmie : reset.mie &&& ~~~delegated = 0) (mhartid time : Word) {s : EntryState}
    (hline : s.line = 0) :
    (∃ s', EntryState.Runs img mhartid s s' ∧
      s'.regs .sp = img.stack0 + 4096 * (mhartid + 1) ∧
      ∀ a, (Cleared img img.sbss a → s'.cells a = 0) ∧
        (¬ Cleared img img.sbss a → s'.cells a = s.cells a)) ∧
    Hart.AtMain img time reset (reset.start img time) ∧
    ∀ h, ReflTransGen Hart.Step (reset.start img time) h →
      h.mode ≠ .machine ∧ (∀ cause < 16, h.exceptionTarget cause = .supervisor) ∧
      (∀ i target, h.interruptTarget i = some target →
        target = .supervisor ∧ (i = 5 ∨ i = 9)) ∧
      ∀ access pa, pa.toNat < 2 ^ 56 - 4 → h.Allows access pa := by
  refine ⟨entry_runs mhartid linked hline, reset.start_atMain img time, fun h hrun => ?_⟩
  have hc := (reset.start_confined hmie img time).run hrun
  exact ⟨hc.mode, fun _ => hc.exceptionTarget, fun _ _ => hc.interruptTarget,
    fun access _ => hc.allows access⟩

def sampleSymbols : Symbols where
  sbss := 0x8000A000
  ebss := 0x8000A020
  stack0 := 0x8000A020
  main := 0x80000100

/-- Every register cleared. -/
def sampleReset : Hart where
  mode := .machine
  pc := 0x80000000
  mstatus := 0
  mepc := 0
  mtvec := 0
  medeleg := 0
  mideleg := 0
  mie := 0
  mip := 0
  menvcfg := 0
  mcounteren := 0
  pmpaddr0 := 0
  pmpcfg0 := 0
  satp := 0
  stvec := 0
  sepc := 0
  scause := 0
  stimecmp := 0

theorem machine_mode_left_sample :
    (∃ s', EntryState.Runs sampleSymbols 0 ⟨0, fun _ => 0, fun _ => 1⟩ s' ∧
      s'.regs .sp = 0x8000B020 ∧ s'.cells 0x8000A018 = 0 ∧ s'.cells 0x8000A020 = 1) ∧
    (∀ h, ReflTransGen Hart.Step (sampleReset.start sampleSymbols 7) h → h.mode ≠ .machine) := by
  have hmie : sampleReset.mie &&& ~~~delegated = 0 := by decide
  obtain ⟨⟨s', hrun, hsp, hcells⟩, -, hafter⟩ :=
    machine_mode_left (⟨by decide, by decide⟩ : Linked sampleSymbols) hmie 0 7
      (s := ⟨0, fun _ => 0, fun _ => 1⟩) rfl
  have hin : Cleared sampleSymbols sampleSymbols.sbss 0x8000A018 := .inr (by decide)
  have hout : ¬ Cleared sampleSymbols sampleSymbols.sbss 0x8000A020 := by
    rintro (heq | ⟨-, hlt, -⟩)
    · exact absurd heq (by decide)
    · exact absurd hlt (by decide)
  exact ⟨⟨s', hrun, hsp, (hcells _).1 hin, (hcells _).2 hout⟩, fun h hh => (hafter h hh).1⟩

end Xv6Kernel.Process.Start
