import Mathlib.Logic.Relation
import Mathlib.Data.Finset.Basic
import Xv6Kernel.Foundation.Chain
import Xv6Kernel.Foundation.Program
import Xv6Kernel.Mm.Layout

/-!
# The physical page allocator

`kalloc.c` over a memory of 64-bit words.  The free list lives in the pages it
lists: the first word of a free page is its `struct run`.
-/

namespace Xv6Kernel.Mm

open Xv6Kernel.Foundation

/-! ## Memory and the programs that use it -/

/-- RAM, as the aligned 8-byte words of it, `kmem.freelist`, and the variable
`kernel_pagetable` of `vm.c`. -/
structure Memory where
  word : Word → Word
  freelist : Word
  kernelPagetable : Word

inductive MemInstr : Type → Type 1 where
  /-- Accesses that need no lock. -/
  | touch {β : Type} (f : Memory → β × Memory) : MemInstr β
  /-- Accesses between `acquire(&kmem.lock)` and `release(&kmem.lock)`. -/
  | critical {β : Type} (f : Memory → β × Memory) : MemInstr β
  | panic {β : Type} (message : String) : MemInstr β
  /-- A recursion that never comes back. -/
  | diverge {β : Type} : MemInstr β

inductive Halt where
  | panic (message : String)
  | diverge
  deriving DecidableEq, Repr

abbrev MemM := Program MemInstr

def MemInstr.exec {β : Type} : MemInstr β → Memory → Except Halt (β × Memory)
  | .touch f, m => .ok (f m)
  | .critical f, m => .ok (f m)
  | .panic message, _ => .error (.panic message)
  | .diverge, _ => .error .diverge

/-- One hart runs a memory program with nothing in between. -/
def exec {α : Type} (program : MemM α) (m : Memory) : Except Halt (α × Memory) :=
  program.run MemInstr.exec m

def touch {α : Type} (f : Memory → α × Memory) : MemM α := .perform (.touch f)
def critical {α : Type} (f : Memory → α × Memory) : MemM α :=
  .perform (.critical f)
def panic {α : Type} (message : String) : MemM α := .perform (.panic message)
def diverge {α : Type} : MemM α := .perform .diverge

section Exec

variable {α β : Type} (m : Memory)

@[simp] theorem exec_done (value : α) : exec (.done value) m = .ok (value, m) :=
  rfl

@[simp] theorem exec_pure (value : α) : exec (pure value) m = .ok (value, m) :=
  rfl

@[simp] theorem exec_touch (f : Memory → α × Memory) :
    exec (touch f) m = .ok (f m) := by
  simp [exec, touch, MemInstr.exec]

@[simp] theorem exec_critical (f : Memory → α × Memory) :
    exec (critical f) m = .ok (f m) := by
  simp [exec, critical, MemInstr.exec]

@[simp] theorem exec_panic (message : String) :
    exec (panic message : MemM α) m = .error (.panic message) := by
  simp [exec, panic, MemInstr.exec]

@[simp] theorem exec_diverge : exec (diverge : MemM α) m = .error .diverge := by
  simp [exec, diverge, MemInstr.exec]

@[simp] theorem exec_bind (program : MemM α) (rest : α → MemM β) :
    exec (program >>= rest) m =
      match exec program m with
      | .ok (value, m') => exec (rest value) m'
      | .error halt => .error halt := by
  simp only [exec, Program.run_bind]
  cases program.run MemInstr.exec m <;> rfl

theorem exec_bind_ok {program : MemM α} {rest : α → MemM β} {m m' : Memory}
    {value : β} :
    exec (program >>= rest) m = .ok (value, m') ↔
      ∃ middle between, exec program m = .ok (middle, between) ∧
        exec (rest middle) between = .ok (value, m') :=
  Program.run_bind_ok MemInstr.exec

end Exec

/-! ## Loads, stores and fills -/

namespace Memory

def store (m : Memory) (address value : Word) : Memory :=
  { m with word := Function.update m.word address value }

/-- The word whose eight bytes are all `byte`. -/
def splat (byte : BitVec 8) : Word :=
  byte.setWidth 64 * 0x0101010101010101

def fill (m : Memory) (dst : Word) (byte : BitVec 8) (n : Word) : Memory :=
  { m with word := fun a => if a - dst < n then splat byte else m.word a }

/-- The words of a page. -/
def page (m : Memory) (p : Word) (index : Fin 512) : Word :=
  m.word (cell p index)

@[simp] theorem store_freelist (m : Memory) (a v : Word) :
    (m.store a v).freelist = m.freelist := rfl

@[simp] theorem store_kernelPagetable (m : Memory) (a v : Word) :
    (m.store a v).kernelPagetable = m.kernelPagetable := rfl

@[simp] theorem fill_freelist (m : Memory) (p n : Word) (byte : BitVec 8) :
    (m.fill p byte n).freelist = m.freelist := rfl

@[simp] theorem fill_kernelPagetable (m : Memory) (p n : Word) (byte : BitVec 8) :
    (m.fill p byte n).kernelPagetable = m.kernelPagetable := rfl

@[simp] theorem store_self (m : Memory) (a v : Word) :
    (m.store a v).word a = v := by simp [store]

theorem store_other (m : Memory) {a b : Word} (v : Word) (h : b ≠ a) :
    (m.store a v).word b = m.word b := by simp [store, h]

theorem fill_in (m : Memory) {p a : Word} (byte : BitVec 8)
    (h : InPage p a) : (m.fill p byte pgSize).word a = splat byte :=
  if_pos h

theorem fill_out (m : Memory) {p a : Word} (byte : BitVec 8)
    (h : ¬ InPage p a) : (m.fill p byte pgSize).word a = m.word a :=
  if_neg h

end Memory

/-- `memset`, on a run of whole words. -/
def memset (dst : Word) (byte : BitVec 8) (n : Word) : MemM Unit :=
  touch fun m => ((), m.fill dst byte n)

/-! ## kalloc.c -/

def freePage (img : Image) (page : Word) : MemM Unit := do
  if page % pgSize ≠ 0 ∨ page < img.end_ ∨ physTop ≤ page then
    panic "free_page"
  memset page 1 pgSize
  critical fun m => ((), { m.store page m.freelist with freelist := page })

/-- The loop of `freerange`; `fuel` bounds the pages left, and the test of the
loop ends it (`freerangeLoop_exec`). -/
def freerangeLoop (img : Image) (paEnd : Word) : Nat → Word → MemM Unit
  | 0, _ => diverge
  | fuel + 1, p =>
      if p + pgSize ≤ paEnd then do
        freePage img p
        freerangeLoop img paEnd fuel (p + pgSize)
      else pure ()

def freerange (img : Image) (paStart paEnd : Word) : MemM Unit :=
  freerangeLoop img paEnd (paEnd.toNat / 4096 + 1) (pgRoundUp paStart)

/-- `initlock(&kmem.lock)` leaves the zeroed lock free; see `Process.World`. -/
def pmmInit (img : Image) : MemM Unit :=
  freerange img img.end_ physTop

def allocPage : MemM Word := do
  let r ← critical fun m =>
    (m.freelist,
      if m.freelist ≠ 0 then { m with freelist := m.word m.freelist } else m)
  if r ≠ 0 then
    memset r 5 pgSize
  if r = 0 then
    panic "alloc_page"
  return r

/-! ## What one call does -/

namespace Memory

/-- Memory after the head of the free list has been handed out. -/
def pop (m : Memory) : Memory :=
  { m with freelist := m.word m.freelist }.fill m.freelist 5 pgSize

/-- Memory after `page` has been put in front of the free list. -/
def push (m : Memory) (page : Word) : Memory :=
  { (m.fill page 1 pgSize).store page m.freelist with freelist := page }

@[simp] theorem pop_freelist (m : Memory) :
    m.pop.freelist = m.word m.freelist := rfl

@[simp] theorem pop_kernelPagetable (m : Memory) :
    m.pop.kernelPagetable = m.kernelPagetable := rfl

@[simp] theorem push_freelist (m : Memory) (page : Word) :
    (m.push page).freelist = page := rfl

@[simp] theorem push_kernelPagetable (m : Memory) (page : Word) :
    (m.push page).kernelPagetable = m.kernelPagetable := rfl

theorem pop_word (m : Memory) {a : Word} (h : ¬ InPage m.freelist a) :
    m.pop.word a = m.word a :=
  fill_out _ _ h

@[simp] theorem push_word_self (m : Memory) (page : Word) :
    (m.push page).word page = m.freelist := by simp [push]

theorem push_word (m : Memory) {page a : Word} (hp : Aligned page)
    (h : ¬ InPage page a) : (m.push page).word a = m.word a := by
  have hne : a ≠ page := by
    rintro rfl
    exact h (inPage_self hp)
  simp only [push]
  rw [store_other _ _ hne, fill_out _ _ h]

end Memory

theorem exec_allocPage {m : Memory} (h : m.freelist ≠ 0) :
    exec allocPage m = .ok (m.freelist, m.pop) := by
  have hne : ¬ m.freelist = 0#64 := h
  simp [allocPage, memset, hne, Memory.pop]

theorem exec_allocPage_empty {m : Memory} (h : m.freelist = 0) :
    exec allocPage m = .error (.panic "alloc_page") := by
  simp [allocPage, h]

/-- `alloc_page` either hands out the head of the list or panics. -/
theorem exec_allocPage_ok {m m' : Memory} {r : Word}
    (h : exec allocPage m = .ok (r, m')) :
    m.freelist ≠ 0 ∧ r = m.freelist ∧ m' = m.pop := by
  by_cases hfree : m.freelist = 0
  · simp [exec_allocPage_empty hfree] at h
  · rw [exec_allocPage hfree] at h
    cases h
    exact ⟨hfree, rfl, rfl⟩

theorem exec_freePage {img : Image} {m : Memory} {page : Word}
    (hp : Aligned page) (hlow : img.end_.toNat ≤ page.toNat)
    (hhigh : page.toNat < physTop.toNat) :
    exec (freePage img page) m = .ok ((), m.push page) := by
  have hcheck : ¬ (page % pgSize ≠ 0 ∨ page < img.end_ ∨ physTop ≤ page) := by
    simp only [BitVec.lt_def, BitVec.le_def, not_or, not_not, not_lt, not_le]
    exact ⟨hp, hlow, hhigh⟩
  simp only [freePage, hcheck, if_false]
  simp [memset, Memory.push]

/-! ## The free list -/

/-- The free list holds exactly `pages`, in this order. -/
structure FreeList (m : Memory) (pages : List Word) : Prop where
  chain : Chain m.word 0 m.freelist pages
  aligned : ∀ p ∈ pages, Aligned p

namespace FreeList

variable {m m' : Memory} {page : Word} {pages : List Word}

theorem nodup (h : FreeList m pages) : pages.Nodup := h.chain.nodup

theorem ne_zero (h : FreeList m pages) (hmem : page ∈ pages) : page ≠ 0 :=
  h.chain.ne_null hmem

theorem exists_cons (h : FreeList m pages) (hfree : m.freelist ≠ 0) :
    ∃ rest, pages = m.freelist :: rest := by
  cases pages with
  | nil => exact absurd h.chain hfree
  | cons first rest => exact ⟨rest, by rw [h.chain.1]⟩

theorem frame (h : FreeList m pages) (hhead : m'.freelist = m.freelist)
    (hsame : ∀ p ∈ pages, m'.word p = m.word p) : FreeList m' pages where
  chain := hhead ▸ h.chain.frame hsame
  aligned := h.aligned

theorem pop (h : FreeList m (m.freelist :: pages)) : FreeList m.pop pages where
  chain := by
    refine h.chain.2.2.frame fun p hp => m.pop_word fun hin => ?_
    have hhead := h.aligned m.freelist (by simp)
    have heq := inPage_unique hhead (h.aligned p (by simp [hp])) hin
      (inPage_self (h.aligned p (by simp [hp])))
    exact (List.nodup_cons.mp h.nodup).1 (heq ▸ hp)
  aligned := fun p hp => h.aligned p (by simp [hp])

theorem push (h : FreeList m pages) (hp : Aligned page) (hne : page ≠ 0)
    (hnew : page ∉ pages) : FreeList (m.push page) (page :: pages) where
  chain := by
    refine h.chain.push hne (m.push_word_self page) fun p hmem => ?_
    refine m.push_word hp fun hin => hnew ?_
    rwa [inPage_unique hp (h.aligned p hmem) hin (inPage_self (h.aligned p hmem))]
  aligned := by
    intro p hmem
    rcases List.mem_cons.mp hmem with rfl | hmem
    · exact hp
    · exact h.aligned p hmem

end FreeList

/-! ## The loop of `freerange` -/

theorem physTop_toNat : physTop.toNat = 0x88000000 := by decide

/-- The pages from `low` on that end at or below `high`. -/
def PageBetween (low high : Nat) (p : Word) : Prop :=
  Aligned p ∧ low ≤ p.toNat ∧ p.toNat + 4096 ≤ high

theorem freerangeLoop_exec {img : Image} {low fuel : Nat} {p : Word}
    {m : Memory} {pages : List Word} (hp : Aligned p)
    (hend : img.end_.toNat ≤ p.toNat) (hpos : p ≠ 0) (hlow : low ≤ p.toNat)
    (htop : p.toNat ≤ physTop.toNat)
    (hfuel : physTop.toNat < p.toNat + 4096 * fuel)
    (hlist : FreeList m pages)
    (hpages : ∀ q, q ∈ pages ↔ PageBetween low p.toNat q) :
    ∃ m' pages', exec (freerangeLoop img physTop fuel p) m = .ok ((), m') ∧
      FreeList m' pages' ∧
      ∀ q, q ∈ pages' ↔ PageBetween low physTop.toNat q := by
  induction fuel generalizing p m pages with
  | zero => omega
  | succ fuel ih =>
      have htopNat := physTop_toNat
      have hpAligned := aligned_iff.mp hp
      have hnext : (p + pgSize).toNat = p.toNat + 4096 := by
        rw [BitVec.toNat_add, show pgSize.toNat = 4096 by decide]
        omega
      by_cases hroom : p + pgSize ≤ physTop
      · have hroomNat : p.toNat + 4096 ≤ physTop.toNat := by
          rwa [BitVec.le_def, hnext] at hroom
        have hnew : p ∉ pages := by
          rw [hpages]
          rintro ⟨-, -, h⟩
          omega
        have hpages' : ∀ q, q ∈ p :: pages ↔
            PageBetween low (p + pgSize).toNat q := by
          intro q
          rw [List.mem_cons, hpages, hnext]
          constructor
          · rintro (rfl | ⟨hq, hq1, hq2⟩)
            · exact ⟨hp, hlow, le_refl _⟩
            · exact ⟨hq, hq1, by omega⟩
          · rintro ⟨hq, hq1, hq2⟩
            by_cases heq : q = p
            · exact .inl heq
            · have hne : q.toNat ≠ p.toNat := fun h => heq (BitVec.eq_of_toNat_eq h)
              have hqAligned := aligned_iff.mp hq
              exact .inr ⟨hq, hq1, by omega⟩
        have hne0 : p + pgSize ≠ 0 := by
          intro h
          rw [h] at hnext
          simp at hnext
        have hpA' : Aligned (p + pgSize) := by
          rw [aligned_iff, hnext]
          omega
        obtain ⟨m', pages', hexec, hlist', hall⟩ :=
          ih hpA' (by omega) hne0 (by omega) (by omega) (by omega)
            (hlist.push hp hpos hnew) hpages'
        refine ⟨m', pages', ?_, hlist', hall⟩
        simp [freerangeLoop, hroom, exec_freePage hp hend (by omega), hexec]
      · have hroomNat : ¬ p.toNat + 4096 ≤ physTop.toNat := by
          rwa [BitVec.le_def, hnext] at hroom
        have hdone : p.toNat = physTop.toNat := by omega
        refine ⟨m, pages, by simp [freerangeLoop, hroom], hlist, ?_⟩
        rwa [← hdone]

/-- The pages `pmm_init` hands to the allocator. -/
def Managed (img : Image) (p : Word) : Prop :=
  PageBetween (pgRoundUp img.end_).toNat physTop.toNat p

theorem end_le_pgRoundUp {img : Image} (h : img.end_ < physTop) :
    img.end_.toNat ≤ (pgRoundUp img.end_).toNat ∧
      (pgRoundUp img.end_).toNat ≤ physTop.toNat := by
  rw [BitVec.lt_def, physTop_toNat] at h
  rw [pgRoundUp_toNat (by omega), physTop_toNat]
  omega

theorem pmmInit_exec {img : Image} (hpos : img.end_ ≠ 0)
    (htop : img.end_ < physTop) {m : Memory} (hzero : m.freelist = 0) :
    ∃ m' pages, exec (pmmInit img) m = .ok ((), m') ∧ FreeList m' pages ∧
      ∀ q, q ∈ pages ↔ Managed img q := by
  obtain ⟨hle, htop'⟩ := end_le_pgRoundUp htop
  have hstart : pgRoundUp img.end_ ≠ 0 := by
    intro h
    rw [h] at hle
    apply hpos
    apply BitVec.eq_of_toNat_eq
    simpa using hle
  have hnat := physTop_toNat
  have hnil : FreeList m [] := ⟨hzero, by simp⟩
  refine freerangeLoop_exec (pgRoundUp_aligned _) hle hstart (le_refl _) htop'
    (by omega) hnil fun q => ?_
  simp only [List.not_mem_nil, false_iff]
  rintro ⟨-, h1, h2⟩
  omega

end Xv6Kernel.Mm
