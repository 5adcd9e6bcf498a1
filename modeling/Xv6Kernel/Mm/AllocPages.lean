import Xv6Kernel.Mm.Allocator

/-!
# `alloc_pages`

The loop counts from 1, so that it takes one page less than it was asked for, and
what it has taken when it finds the list empty it does not put back.
-/

namespace Xv6Kernel.Mm

open Xv6Kernel.Foundation

/-! ## kalloc.c -/

/-- The loop of `alloc_pages`; the answer is whether there were pages enough.  `fuel`
bounds the rounds left, and the test of the loop ends it (`exec_allocPagesLoop`). -/
def allocPagesLoop (n : BitVec 32) : Nat → BitVec 32 → MemM Bool
  | 0, _ => diverge
  | fuel + 1, i =>
      if i.slt n then do
        let freelist ← touch fun m => (m.freelist, m)
        if freelist = 0 then
          return false
        touch fun m => ((), { m with freelist := m.word m.freelist })
        allocPagesLoop n fuel (i + 1)
      else return true

/-- `alloc_pages` takes no lock. -/
def allocPages (n : BitVec 32) : MemM Word := do
  let r ← touch fun m => (m.freelist, m)
  if ← allocPagesLoop n (n.toNat + 1) 1 then
    return r
  return 0

/-! ## What one call does -/

section Exec

variable {m : Memory} {pages : List Word} {n : BitVec 32}

/-- Memory after the head of the free list has been dropped without a fill. -/
theorem FreeList.skip (h : FreeList m (m.freelist :: pages)) :
    FreeList { m with freelist := m.word m.freelist } pages :=
  ⟨h.chain.2.2, fun p hp => h.aligned p (List.mem_cons_of_mem _ hp)⟩

theorem slt_iff {i n : BitVec 32} (hi : i.toNat < 2 ^ 31) (hn : n.toNat < 2 ^ 31) :
    i.slt n = true ↔ i.toNat < n.toNat := by
  rw [BitVec.slt_iff_toInt_lt, BitVec.toInt_eq_toNat_of_lt (by omega),
    BitVec.toInt_eq_toNat_of_lt (by omega)]
  exact Int.ofNat_lt

theorem exec_allocPagesLoop (hn : n.toNat < 2 ^ 31) {fuel : Nat} {i : BitVec 32}
    (hi : i.toNat ≤ n.toNat) (hfuel : n.toNat < i.toNat + fuel) (h : FreeList m pages) :
    ∃ m', exec (allocPagesLoop n fuel i) m =
        .ok (decide (n.toNat - i.toNat ≤ pages.length), m') ∧
      FreeList m' (pages.drop (n.toNat - i.toNat)) := by
  induction fuel generalizing i m pages with
  | zero => omega
  | succ fuel ih =>
      by_cases hlt : i.toNat < n.toNat
      · have hslt : i.slt n = true := (slt_iff (by omega) hn).mpr hlt
        have hnext : (i + 1).toNat = i.toNat + 1 := by
          rw [BitVec.toNat_add, show (1 : BitVec 32).toNat = 1 by decide]
          omega
        cases pages with
        | nil =>
            have hzero : m.freelist = 0#64 := h.chain
            refine ⟨m, ?_, by simpa using h⟩
            have hshort : ¬ n.toNat - i.toNat = 0 := by omega
            simp [allocPagesLoop, hslt, hzero, hshort]
        | cons first rest =>
            obtain rfl : m.freelist = first := h.chain.1
            have hne : ¬ m.freelist = 0#64 := h.ne_zero List.mem_cons_self
            obtain ⟨m', hexec, hlist⟩ := ih (i := i + 1) (by omega) (by omega) h.skip
            rw [hnext] at hexec hlist
            have hcount : n.toNat - i.toNat = n.toNat - (i.toNat + 1) + 1 := by omega
            refine ⟨m', ?_, ?_⟩
            · have hloop : exec (allocPagesLoop n fuel (i + 1#32))
                  { m with freelist := m.word m.freelist } = _ := hexec
              simp [allocPagesLoop, hslt, hne, hloop, hcount]
            · rwa [hcount, List.drop_succ_cons]
      · have hslt : ¬ i.slt n = true := fun h => hlt ((slt_iff (by omega) hn).mp h)
        have hcount : n.toNat - i.toNat = 0 := by omega
        refine ⟨m, ?_, by rwa [hcount]⟩
        simp [allocPagesLoop, hslt, hcount]

/-- `alloc_pages(n)` takes `n - 1` pages off the list, or all if there are fewer. -/
theorem exec_allocPages (hn : 0 < n.toInt) (h : FreeList m pages) :
    ∃ m', exec (allocPages n) m =
        .ok (if n.toNat ≤ pages.length + 1 then m.freelist else 0, m') ∧
      FreeList m' (pages.drop (n.toNat - 1)) := by
  have hlt : n.toNat < 2 ^ 31 := by
    rw [BitVec.toInt_eq_toNat_cond] at hn
    split at hn <;> omega
  have hpos : 0 < n.toNat := by
    rw [BitVec.toInt_eq_toNat_of_lt (by omega)] at hn
    omega
  have hone : (1 : BitVec 32).toNat = 1 := by decide
  have hstart : (1 : BitVec 32).toNat ≤ n.toNat := by omega
  have hfuel : n.toNat < (1 : BitVec 32).toNat + (n.toNat + 1) := by omega
  obtain ⟨m', hexec, hlist⟩ := exec_allocPagesLoop hlt hstart hfuel h
  rw [hone] at hexec hlist
  have hloop : exec (allocPagesLoop n (n.toNat + 1) 1#32) m =
      .ok (decide (n.toNat - 1 ≤ pages.length), m') := hexec
  refine ⟨m', ?_, hlist⟩
  by_cases henough : n.toNat ≤ pages.length + 1
  · have hdone : n.toNat - 1 ≤ pages.length := by omega
    simp [allocPages, hloop, hdone, henough]
  · have hdone : ¬ n.toNat - 1 ≤ pages.length := by omega
    simp [allocPages, hloop, hdone, henough]

theorem FreeList.unique {pages' : List Word} (h : FreeList m pages)
    (h' : FreeList m pages') : pages = pages' := h.chain.unique h'.chain

end Exec

/-! ## Exclusive ownership -/

/-- `p` is one of the `n` pages from `r` on. -/
def Block (n : BitVec 32) (r p : Word) : Prop :=
  ∃ i < n.toNat, p = r + BitVec.ofNat 64 i * pgSize

/-- The block from `r` on has gone from the list `pages`, and nothing else has. -/
structure Exclusive (n : BitVec 32) (r : Word) (pages pages' : List Word) : Prop where
  listed : ∀ p, Block n r p → p ∈ pages
  taken : ∀ p, Block n r p → p ∉ pages'
  kept : ∀ p ∈ pages, ¬ Block n r p → p ∈ pages'

theorem block_length {n : BitVec 32} {r : Word} {pages : List Word}
    (hn : n.toNat < 2 ^ 31) (hsub : ∀ p, Block n r p → p ∈ pages) :
    n.toNat ≤ pages.length := by
  let page : Nat → Word := fun i => r + BitVec.ofNat 64 i * pgSize
  have hinj : ∀ i ∈ List.range n.toNat, ∀ j ∈ List.range n.toNat, page i = page j → i = j := by
    intro i hi j hj heq
    rw [List.mem_range] at hi hj
    have hmul : BitVec.ofNat 64 i * pgSize = BitVec.ofNat 64 j * pgSize :=
      (BitVec.add_right_inj r).mp heq
    have hnat := congrArg BitVec.toNat hmul
    rw [BitVec.toNat_mul, BitVec.toNat_mul, BitVec.toNat_ofNat, BitVec.toNat_ofNat,
      show pgSize.toNat = 4096 by decide] at hnat
    omega
  have hnodup : ((List.range n.toNat).map page).Nodup :=
    List.nodup_range.map_on hinj
  have hlength := (hnodup.subperm fun p hp => by
    obtain ⟨i, hi, rfl⟩ := List.mem_map.mp hp
    exact hsub _ ⟨i, List.mem_range.mp hi, rfl⟩).length_le
  simpa using hlength

theorem lt_of_toInt_pos {n : BitVec 32} (hn : 0 < n.toInt) : n.toNat < 2 ^ 31 := by
  rw [BitVec.toInt_eq_toNat_cond] at hn
  split at hn <;> omega

/-- A call that returns a block gives it to the caller. -/
def GivesBlock (m : Memory) (pages : List Word) (n : BitVec 32) : Prop :=
  ∀ r m' pages', exec (allocPages n) m = .ok (r, m') → FreeList m' pages' → r ≠ 0 →
    Exclusive n r pages pages'

/-- Whenever `alloc_pages` returns a block, a page of the block is still on the list or
was not on it: the property holds only of the calls that return 0. -/
theorem allocPages_exclusive_iff {m : Memory} {pages : List Word} {n : BitVec 32}
    (h : FreeList m pages) (hn : 0 < n.toInt) :
    GivesBlock m pages n ↔ pages = [] ∨ pages.length + 1 < n.toNat := by
  obtain ⟨m', hexec, hlist⟩ := exec_allocPages hn h
  constructor
  · intro hclaim
    by_contra hboth
    rw [not_or, not_lt] at hboth
    obtain ⟨hne, hle⟩ := hboth
    rw [if_pos hle] at hexec
    have hhead : m.freelist ≠ 0 := fun hzero => hne (h.chain.eq_nil_iff.mp hzero)
    have hexclusive := hclaim _ _ _ hexec hlist hhead
    -- only `n - 1` pages have gone, so the block is too long for them
    have htaken : ∀ p, Block n m.freelist p → p ∈ pages.take (n.toNat - 1) := by
      intro p hp
      have hmem := hexclusive.listed p hp
      rw [← List.take_append_drop (n.toNat - 1) pages] at hmem
      exact (List.mem_append.mp hmem).resolve_right (hexclusive.taken p hp)
    have hlong := block_length (lt_of_toInt_pos hn) htaken
    have hshort := List.length_take_le (n.toNat - 1) pages
    have hpos : 0 < n.toNat := by
      rcases Nat.eq_zero_or_pos n.toNat with hzero | hpos
      · rw [BitVec.toInt_eq_toNat_of_lt (by omega), hzero] at hn
        exact absurd hn (by decide)
      · exact hpos
    omega
  · rintro hempty r m'' pages' hexec' - hr
    rw [hexec] at hexec'
    cases hexec'
    rcases hempty with rfl | hshort
    · have hzero : m.freelist = 0 := h.chain
      rw [hzero, ite_self] at hr
      exact absurd rfl hr
    · rw [if_neg (by omega)] at hr
      exact absurd rfl hr

/-- Two free pages, the second after the first. -/
def twoPages : Memory where
  word a := if a = kernBase then kernBase + pgSize else 0
  freelist := kernBase
  kernelPagetable := 0

theorem freeList_twoPages : FreeList twoPages [kernBase, kernBase + pgSize] where
  chain := by
    refine ⟨rfl, by decide, by decide, by decide, ?_⟩
    show twoPages.word (kernBase + pgSize) = 0
    decide
  aligned := by
    simp only [List.mem_cons, List.not_mem_nil, or_false, forall_eq_or_imp, forall_eq]
    decide

theorem allocPages_exclusive_sample :
    GivesBlock twoPages [kernBase, kernBase + pgSize] 4 ↔
      [kernBase, kernBase + pgSize] = [] ∨ [kernBase, kernBase + pgSize].length + 1 < 4 :=
  allocPages_exclusive_iff freeList_twoPages (by decide)

/-- `alloc_pages(1)` returns the first free page and leaves it on the list. -/
theorem allocPages_not_exclusive : ¬ ∀ m pages, ∀ n : BitVec 32,
    FreeList m pages → 0 < n.toInt → GivesBlock m pages n := by
  intro hclaim
  obtain ⟨m', hexec, hlist⟩ := exec_allocPages (n := 1) (by decide) freeList_twoPages
  have hexclusive := hclaim twoPages _ 1 freeList_twoPages (by decide) _ _ _ hexec hlist
    (by decide)
  exact hexclusive.taken kernBase ⟨0, by decide, by decide⟩ (by decide)

/-! ## Failing -/

/-- A call that fails for want of pages leaves the list as it was. -/
def FailsClean (m : Memory) (pages : List Word) (n : BitVec 32) : Prop :=
  ∀ m' pages', exec (allocPages n) m = .ok (0, m') → FreeList m' pages' →
    ∀ p, p ∈ pages' ↔ p ∈ pages

/-- A call that fails loses every page there was. -/
theorem allocPages_failsClean_iff {m : Memory} {pages : List Word} {n : BitVec 32}
    (h : FreeList m pages) (hn : 0 < n.toInt) :
    FailsClean m pages n ↔ pages = [] ∨ n.toNat ≤ pages.length + 1 := by
  obtain ⟨m', hexec, hlist⟩ := exec_allocPages hn h
  constructor
  · intro hclaim
    by_contra hboth
    rw [not_or, not_le] at hboth
    obtain ⟨hne, hlong⟩ := hboth
    rw [if_neg (by omega)] at hexec
    have hdropped : pages.drop (n.toNat - 1) = [] := List.drop_eq_nil_iff.mpr (by omega)
    have hsame := hclaim _ _ hexec hlist
    rw [hdropped] at hsame
    obtain ⟨p, hp⟩ := List.exists_mem_of_ne_nil pages hne
    exact List.not_mem_nil ((hsame p).mpr hp)
  · rintro hcases m'' pages' hexec' hlist' p
    rw [hexec] at hexec'
    simp only [Except.ok.injEq, Prod.mk.injEq] at hexec'
    obtain ⟨hzero, rfl⟩ := hexec'
    have hempty : pages = [] := by
      rcases hcases with hempty | henough
      · exact hempty
      · rw [if_pos henough] at hzero
        exact h.chain.eq_nil_iff.mp hzero
    rw [hlist'.unique hlist, hempty, List.drop_nil]

theorem allocPages_failsClean_sample :
    FailsClean twoPages [kernBase, kernBase + pgSize] 2 ↔
      [kernBase, kernBase + pgSize] = [] ∨ 2 ≤ [kernBase, kernBase + pgSize].length + 1 :=
  allocPages_failsClean_iff freeList_twoPages (by decide)

/-- `alloc_pages(4)` with two free pages fails and leaves none. -/
theorem allocPages_not_failsClean : ¬ ∀ m pages, ∀ n : BitVec 32,
    FreeList m pages → 0 < n.toInt → FailsClean m pages n := by
  intro hclaim
  obtain ⟨m', hexec, hlist⟩ := exec_allocPages (n := 4) (by decide) freeList_twoPages
  have hsame := hclaim twoPages _ 4 freeList_twoPages (by decide) _ _ hexec hlist kernBase
  exact List.not_mem_nil (hsame.mpr List.mem_cons_self)

end Xv6Kernel.Mm
