import Xv6Kernel.Process.Custody

/-!
# The address spaces over a run

Whatever processes come and go, the kernel's own map stays as the boot left it, and what
one page table lets be written no page table lets be executed.
-/

namespace Xv6Kernel.Process

open Xv6Kernel.Foundation Xv6Kernel.Mm Relation

variable {img : Image} {kstack : Slot → Word} {k : Kernel} {pages : List Word}
  {trees : Option Slot → Tables} {root va pa perm : Word}

/-- The page tables in use. -/
def Kernel.Root (k : Kernel) (root : Word) : Prop :=
  root = k.memory.kernelPagetable ∨ ∃ p, k.Live p ∧ root = (k.proc p).pagetable

theorem Serves.entryAt_within {m : Memory} {nodes : Tables} {map : PageMap}
    (serves : Serves m nodes root map) (htree : Radix sv39 2 m.page nodes)
    (hva : va < maxVa) : entryAt m root va = entryFor (map (pgRoundDown va)) := by
  have hdown : (pgRoundDown va).toNat < 2 ^ 39 :=
    (BitVec.lt_def.mp (pgRoundDown_lt hva)).trans_le (by decide)
  rw [← serves.entryAt htree (pgRoundDown_aligned va) hdown, entryAt_eq htree serves.root,
    entryAt_eq htree serves.root, pteOf, pteOf, key_pgRoundDown]

/-- The last page of the text is the trampoline. -/
structure LinkedImage (img : Image) : Prop extends KernelImage img where
  trampoline : img.trampoline + pgSize = img.etext

theorem LinkedImage.toNat_trampoline (himg : LinkedImage img) :
    img.trampoline.toNat + 4096 = img.etext.toNat := by
  have htext := himg.text
  have hbase := kernBase_toNat
  have hsize : pgSize.toNat = 4096 := by decide
  have hsub : img.trampoline = img.etext - pgSize := by rw [← himg.trampoline]; simp
  rw [BitVec.lt_def, hbase] at htext
  rw [hsub, BitVec.toNat_sub_of_le (BitVec.le_def.mpr (by omega)), hsize]
  omega

theorem LinkedImage.range (himg : LinkedImage img) :
    kernBase.toNat ≤ img.trampoline.toNat ∧ img.trampoline.toNat < img.etext.toNat := by
  have htramp := himg.toNat_trampoline
  have htext := himg.text
  have haligned := aligned_iff.mp himg.etext_aligned
  have hbase := kernBase_toNat
  rw [BitVec.lt_def, hbase] at htext
  omega

theorem LinkedImage.page (himg : LinkedImage img) : Trampoline img where
  aligned := by
    have htramp := himg.toNat_trampoline
    have haligned := aligned_iff.mp himg.etext_aligned
    exact aligned_iff.mpr (by omega)
  below := by
    have hrange := himg.range
    have hdata := himg.data
    rw [BitVec.lt_def] at hdata ⊢
    omega

/-- A page is text, to be executed, or lies outside the text and may be written. -/
def Sorted (img : Image) (pa perm : Word) : Prop :=
  perm = pteR ||| pteX ∧ kernBase.toNat ≤ pa.toNat ∧ pa.toNat < img.etext.toNat ∨
    perm = pteR ||| pteW ∧ (pa.toNat < kernBase.toNat ∨ img.etext.toNat ≤ pa.toNat)

theorem PageInv.kernelMap_sorted (himg : LinkedImage img)
    (hinv : PageInv img kstack k pages trees) (hmap : kernelMap img kstack va = some (pa, perm)) :
    Sorted img pa perm := by
  rcases kernelMap_cases hmap with ⟨hperm, hlow, hhigh⟩ | ⟨hperm, hout⟩
  · exact .inl ⟨hperm, BitVec.le_def.mp hlow, BitVec.lt_def.mp hhigh⟩
  · refine .inr ⟨hperm, ?_⟩
    rcases hout with hdata | rfl | ⟨p, rfl⟩
    · exact .inr (BitVec.le_def.mp hdata)
    · exact .inl (by decide)
    · have hmanaged : Managed img (kstack p) := hinv.owned.managed_other (.inl ⟨p, rfl⟩)
      have hlow := hmanaged.2.1
      have hend := (end_le_pgRoundUp himg.below).1
      have hdata := himg.data
      rw [BitVec.lt_def] at hdata
      exact .inr (by omega)

theorem procMap_sorted (himg : LinkedImage img) (hmap : procMap img va = some (pa, perm)) :
    Sorted img pa perm := by
  unfold procMap at hmap
  split at hmap
  · cases hmap
    exact .inr ⟨rfl, .inl (by decide)⟩
  · split at hmap
    · cases hmap
      exact .inl ⟨rfl, himg.range⟩
    · cases hmap

/-- What a page table in use has at an address. -/
theorem PageInv.entry_sorted (himg : LinkedImage img) (hinv : PageInv img kstack k pages trees)
    (hroot : k.Root root) (hva : va < maxVa) :
    entryAt k.memory root va = 0 ∨ ∃ pa perm, entryAt k.memory root va = leafPte pa perm ∧
      Target (some (pa, perm)) ∧ Sorted img pa perm := by
  have hdown := pgRoundDown_aligned va
  rcases hroot with rfl | ⟨p, hp, rfl⟩
  · rw [Serves.entryAt_within hinv.kernel (hinv.owned.tree none) hva]
    cases hmap : kernelMap img kstack (pgRoundDown va) with
    | none => exact .inl rfl
    | some target =>
        exact .inr ⟨target.1, target.2, rfl, hmap ▸ hinv.kernel.target hdown,
          hinv.kernelMap_sorted himg hmap⟩
  · have serves := (hinv.live hp).serves
    rw [Serves.entryAt_within serves (hinv.owned.tree (some p)) hva]
    cases hmap : procMap img (pgRoundDown va) with
    | none => exact .inl rfl
    | some target =>
        exact .inr ⟨target.1, target.2, rfl, hmap ▸ serves.target hdown,
          procMap_sorted himg hmap⟩

/-- What holds of the page tables in every state after the boot, which left `k₀`. -/
structure Protects (k₀ k : Kernel) : Prop where
  kernel : ∀ va < maxVa, entryAt k.memory k.memory.kernelPagetable va =
    entryAt k₀.memory k₀.memory.kernelPagetable va
  /-- Over all page tables together. -/
  write_xor_execute : ∀ root root' va va', k.Root root → k.Root root' → va < maxVa →
    va' < maxVa → entryAt k.memory root va ≠ 0 → entryAt k.memory root' va' ≠ 0 →
    pte2pa (entryAt k.memory root va) = pte2pa (entryAt k.memory root' va') →
    entryAt k.memory root va &&& pteW ≠ 0 → entryAt k.memory root' va' &&& pteX = 0
  no_user : ∀ root va, k.Root root → va < maxVa → entryAt k.memory root va &&& pteU = 0

/-- A flag of a leaf is one that the mapping was made with. -/
theorem leafPte_and {flag : Word} (hperm : Perm perm) (hflag : flag &&& 0x3FF = flag) :
    leafPte pa perm &&& flag = (perm ||| pteV) &&& flag := by
  have hflags : pteFlags (leafPte pa perm) = perm ||| pteV := leafPte_flags hperm
  rw [← hflags, pteFlags, BitVec.and_assoc, BitVec.and_comm 0x3FF, hflag]

theorem Sorted.writable (sorted : Sorted img pa perm) (hperm : Perm perm)
    (hwrite : leafPte pa perm &&& pteW ≠ 0) :
    pa.toNat < kernBase.toNat ∨ img.etext.toNat ≤ pa.toNat := by
  rw [leafPte_and hperm (by decide)] at hwrite
  rcases sorted with ⟨rfl, -⟩ | ⟨-, hout⟩
  · exact absurd (by decide) hwrite
  · exact hout

theorem Sorted.executable (sorted : Sorted img pa perm) (hperm : Perm perm)
    (hout : pa.toNat < kernBase.toNat ∨ img.etext.toNat ≤ pa.toNat) :
    leafPte pa perm &&& pteX = 0 := by
  rw [leafPte_and hperm (by decide)]
  rcases sorted with ⟨-, hlow, hhigh⟩ | ⟨rfl, -⟩
  · omega
  · decide

theorem Sorted.user (sorted : Sorted img pa perm) (hperm : Perm perm) :
    leafPte pa perm &&& pteU = 0 := by
  rw [leafPte_and hperm (by decide)]
  rcases sorted with ⟨rfl, -⟩ | ⟨rfl, -⟩ <;> decide

theorem PageInv.protects {k₀ : Kernel} {pages₀ : List Word} {trees₀ : Option Slot → Tables}
    (himg : LinkedImage img) (hinv₀ : PageInv img kstack k₀ pages₀ trees₀)
    (hinv : PageInv img kstack k pages trees) : Protects k₀ k where
  kernel va hva := by
    rw [Serves.entryAt_within hinv.kernel (hinv.owned.tree none) hva,
      Serves.entryAt_within hinv₀.kernel (hinv₀.owned.tree none) hva]
  write_xor_execute root root' va va' hroot hroot' hva hva' hne hne' hpage hwrite := by
    obtain hzero | ⟨pa, perm, hentry, ⟨haligned, hlt, hperm⟩, sorted⟩ :=
      hinv.entry_sorted himg hroot hva
    · exact absurd hzero hne
    obtain hzero | ⟨pa', perm', hentry', ⟨haligned', hlt', hperm'⟩, sorted'⟩ :=
      hinv.entry_sorted himg hroot' hva'
    · exact absurd hzero hne'
    rw [hentry] at hpage hwrite
    rw [hentry'] at hpage ⊢
    rw [leafPte_pa hperm haligned hlt, leafPte_pa hperm' haligned' hlt'] at hpage
    subst hpage
    exact sorted'.executable hperm' (sorted.writable hperm hwrite)
  no_user root va hroot hva := by
    obtain hzero | ⟨pa, perm, hentry, ⟨-, -, hperm⟩, sorted⟩ := hinv.entry_sorted himg hroot hva
    · rw [hzero]
      decide
    · rw [hentry]
      exact sorted.user hperm

variable {S : Setting Unit}

/-- The boot succeeds, and the kernel is protected ever after. -/
def MemoryProtected (S : Setting Unit) : Prop :=
  ∀ m₀ : Memory, m₀.freelist = 0 → ∃ start, exec (bootMemory S.img) m₀ = .ok ((), start) ∧
    AtRest S start (Protects (afterProcinit start))

theorem memory_protected (himg : LinkedImage S.img) : MemoryProtected S := by
  intro m₀ hzero
  obtain ⟨start, pages, nodes, root, kstacks, kstack, hexec, hboot, -, hkstacks, hinj⟩ :=
    exec_bootMemory himg.toKernelImage himg.room (le_refl _) hzero
  have hinv₀ : PageInv S.img kstack (bootWorld start : World Unit).kernel pages
      (kernelTrees nodes) := PageInv.boot hboot hkstacks hinj
  refine ⟨start, hexec, atRest_of_steps ⟨himg.toKernelImage, himg.page, m₀, hzero, hexec⟩
    fun w hsteps => ?_⟩
  obtain ⟨pages', trees', hinv⟩ := hinv₀.run himg.ranged himg.page hsteps
  exact hinv₀.protects himg hinv

theorem memory_protected_sample : ∃ start m,
    Reaches sampleSetting [sampleEntry, sampleEntry] start m ∧ AfterReap m.world.kernel ∧
      Protects (afterProcinit start) m.world.kernel := by
  obtain ⟨⟨start, m₀, hzero, hboot⟩, m, reaches, hfree, reaped⟩ := reaches_reaped
  obtain ⟨start', hexec, atRest⟩ :=
    memory_protected (S := sampleSetting) ⟨sampleImage_ok.1, by decide⟩ m₀ hzero
  cases hexec.symm.trans hboot
  exact ⟨start, m, reaches, reaped, atRest _ _ reaches hfree⟩

end Xv6Kernel.Process
