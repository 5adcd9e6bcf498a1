import Xv6Kernel.Mm.Allocator

/-!
# Runs of the page allocator

The owners of pages take them, give them back and write whatever they like into
the ones they have.  The free list survives because its links live in pages that
nobody owns.
-/

namespace Xv6Kernel.Mm

open Xv6Kernel.Foundation Relation

/-- The page is on the free list. -/
def Free (m : Memory) (p : Word) : Prop :=
  ∃ pages, Chain m.word 0 m.freelist pages ∧ p ∈ pages

theorem FreeList.free_iff {m : Memory} {pages : List Word} (h : FreeList m pages)
    {p : Word} : Free m p ↔ p ∈ pages := by
  constructor
  · rintro ⟨pages', hchain, hp⟩
    rwa [h.chain.unique hchain]
  · exact fun hp => ⟨pages, h.chain, hp⟩

structure AllocState where
  memory : Memory
  outstanding : Finset Word

inductive AllocStep (img : Image) : AllocState → AllocState → Prop where
  | alloc {s : AllocState} {r : Word} {m : Memory}
      (hfree : s.memory.freelist ≠ 0)
      (hexec : exec allocPage s.memory = .ok (r, m)) :
      AllocStep img s ⟨m, insert r s.outstanding⟩
  | free {s : AllocState} {p : Word} {m : Memory} (hp : p ∈ s.outstanding)
      (hexec : exec (freePage img p) s.memory = .ok ((), m)) :
      AllocStep img s ⟨m, s.outstanding.erase p⟩
  | write {s : AllocState} {p : Word} {m : Memory} (hp : p ∈ s.outstanding)
      (hhead : m.freelist = s.memory.freelist)
      (hsame : ∀ a, ¬ InPage p a → m.word a = s.memory.word a) :
      AllocStep img s ⟨m, s.outstanding⟩

/-- The free list and the outstanding pages share out the managed pages. -/
def Shared (img : Image) (s : AllocState) (pages : List Word) : Prop :=
  FreeList s.memory pages ∧ (∀ p ∈ pages, p ∉ s.outstanding) ∧
    ∀ p, (p ∈ pages ∨ p ∈ s.outstanding) ↔ Managed img p

theorem Managed.aligned {img : Image} {p : Word} (h : Managed img p) :
    Aligned p := h.1

theorem Managed.ne_zero {img : Image} (hpos : img.end_ ≠ 0)
    (htop : img.end_ < physTop) {p : Word} (h : Managed img p) : p ≠ 0 := by
  rintro rfl
  obtain ⟨hle, -⟩ := end_le_pgRoundUp htop
  have hlow := h.2.1
  apply hpos
  apply BitVec.eq_of_toNat_eq
  have hzero : (0 : Word).toNat = 0 := by decide
  omega

theorem exec_freePage_managed {img : Image} (htop : img.end_ < physTop)
    {m : Memory} {p : Word} (h : Managed img p) :
    exec (freePage img p) m = .ok ((), m.push p) := by
  obtain ⟨hle, -⟩ := end_le_pgRoundUp htop
  obtain ⟨haligned, hlow, hhigh⟩ := h
  exact exec_freePage haligned (by omega) (by omega)

theorem Shared.step {img : Image} (hpos : img.end_ ≠ 0)
    (htop : img.end_ < physTop) {s s' : AllocState} {pages : List Word}
    (h : Shared img s pages) (hstep : AllocStep img s s') :
    ∃ pages', Shared img s' pages' := by
  obtain ⟨hlist, hdisjoint, hcover⟩ := h
  cases hstep with
  | alloc hfree hexec =>
      obtain ⟨rest, rfl⟩ := hlist.exists_cons hfree
      obtain ⟨-, rfl, rfl⟩ := exec_allocPage_ok hexec
      have hnotin := (List.nodup_cons.mp hlist.nodup).1
      refine ⟨rest, hlist.pop, fun p hp => ?_, fun p => ?_⟩
      · simp only [Finset.mem_insert, not_or]
        exact ⟨fun heq => hnotin (heq ▸ hp), hdisjoint p (by simp [hp])⟩
      · rw [← hcover p]
        simp only [Finset.mem_insert, List.mem_cons]
        tauto
  | @free page _ hp hexec =>
      have hmanaged := (hcover page).mp (.inr hp)
      rw [exec_freePage_managed htop hmanaged] at hexec
      cases hexec
      have hnew : page ∉ pages := fun hmem => hdisjoint page hmem hp
      refine ⟨page :: pages, hlist.push hmanaged.aligned
        (hmanaged.ne_zero hpos htop) hnew, fun q hq => ?_, fun q => ?_⟩
      · simp only [Finset.mem_erase, not_and]
        intro hne
        exact hdisjoint q ((List.mem_cons.mp hq).resolve_left hne)
      · rw [← hcover q]
        simp only [Finset.mem_erase, List.mem_cons]
        by_cases heq : q = page
        · simp [heq, hp]
        · simp [heq]
  | @write page _ hp hhead hsame =>
      refine ⟨pages, hlist.frame hhead fun q hq => hsame q fun hin => ?_,
        hdisjoint, hcover⟩
      have haligned := ((hcover page).mp (.inr hp)).aligned
      have heq := inPage_unique haligned (hlist.aligned q hq) hin
        (inPage_self (hlist.aligned q hq))
      exact hdisjoint q hq (heq ▸ hp)

theorem Shared.run {img : Image} (hpos : img.end_ ≠ 0)
    (htop : img.end_ < physTop) {s s' : AllocState} {pages : List Word}
    (h : Shared img s pages) (hrun : ReflTransGen (AllocStep img) s s') :
    ∃ pages', Shared img s' pages' := by
  induction hrun with
  | refl => exact ⟨pages, h⟩
  | tail _ hstep ih =>
      obtain ⟨pages', h'⟩ := ih
      exact h'.step hpos htop hstep

/-- What the allocator promises after `pmm_init`, in every state its callers can
bring it to. -/
def AllocatorIntegrity (img : Image) : Prop :=
  ∀ m₀ : Memory, m₀.freelist = 0 →
    ∃ m₁, exec (pmmInit img) m₀ = .ok ((), m₁) ∧
      ∀ s, ReflTransGen (AllocStep img) ⟨m₁, ∅⟩ s →
        (∃ pages, Chain s.memory.word 0 s.memory.freelist pages ∧ pages.Nodup ∧
          (∀ p ∈ pages, Aligned p) ∧ (∀ p ∈ pages, p ∉ s.outstanding) ∧
          ∀ p, (p ∈ pages ∨ p ∈ s.outstanding) ↔ Managed img p) ∧
        (s.memory.freelist ≠ 0 →
          ∃ r m, exec allocPage s.memory = .ok (r, m) ∧ r ∉ s.outstanding) ∧
        ∀ p ∈ s.outstanding, ∃ m, exec (freePage img p) s.memory = .ok ((), m)

theorem allocator_integrity {img : Image} (hpos : img.end_ ≠ 0)
    (htop : img.end_ < physTop) : AllocatorIntegrity img := by
  intro m₀ hzero
  obtain ⟨m₁, pages₁, hexec, hlist₁, hall₁⟩ := pmmInit_exec hpos htop hzero
  refine ⟨m₁, hexec, fun s hrun => ?_⟩
  have hinit : Shared img ⟨m₁, ∅⟩ pages₁ :=
    ⟨hlist₁, by simp, fun p => by simpa using hall₁ p⟩
  obtain ⟨pages, hlist, hdisjoint, hcover⟩ := hinit.run hpos htop hrun
  refine ⟨⟨pages, hlist.chain, hlist.nodup, hlist.aligned, hdisjoint, hcover⟩,
    fun hfree => ?_, fun p hp => ?_⟩
  · obtain ⟨rest, rfl⟩ := hlist.exists_cons hfree
    exact ⟨_, _, exec_allocPage hfree, hdisjoint _ (by simp)⟩
  · exact ⟨_, exec_freePage_managed htop ((hcover p).mp (.inr hp))⟩

/-- The kernel as `kernel.ld` lays it out, with 64 KiB of text and data. -/
def sampleImage : Image where
  etext := kernBase + 0x8000
  end_ := kernBase + 0x10000
  trampoline := kernBase + 0x7000
  forkret := kernBase + 0x800
  initTask := kernBase + 0x1000

theorem allocator_integrity_sample : AllocatorIntegrity sampleImage :=
  allocator_integrity (by decide) (by decide)

/-- With `end` at address 0 the first page freed is the null pointer, and no
list reaches it. -/
theorem allocator_loses_page_zero :
    ¬ AllocatorIntegrity { sampleImage with end_ := 0 } := by
  intro h
  obtain ⟨m₁, -, hruns⟩ := h ⟨fun _ => 0, 0, 0⟩ rfl
  obtain ⟨⟨pages, hchain, -, -, -, hcover⟩, -⟩ := hruns _ .refl
  have hzero : (0 : Word) ∈ pages := by
    refine ((hcover 0).mpr ?_).resolve_right (by simp)
    exact ⟨by decide, by decide, by decide⟩
  exact hchain.ne_null hzero rfl

end Xv6Kernel.Mm
