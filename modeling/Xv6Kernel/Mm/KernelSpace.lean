import Xv6Kernel.Mm.PageTableRuns

/-!
# The kernel's address space

`kvminit` and `procinit` on a machine that `pmm_init` has just prepared.  The
tables of the kernel page table lie on 70 fixed paths, so 134 free pages are
enough for them and the 64 kernel stacks.
-/

namespace Xv6Kernel.Mm

open Xv6Kernel.Foundation

/-- The body of the loop of `procinit` as far as it concerns memory; the slot also
gets its kernel stack's address, the state `UNUSED` and a free lock. -/
def procinitSlot (p : Slot) : MemM Unit := do
  let pa ← allocPage
  if pa = 0 then
    panic "kstack"
  let kernelPagetable ← touch fun m => (m.kernelPagetable, m)
  kvmmap kernelPagetable (kstackVa p) pa pgSize (pteR ||| pteW)

/-- `procinit` of `proc.c`. -/
def procinit : MemM Unit := Program.forEach (List.finRange nproc) procinitSlot

/-! ## A tree that serves a map -/

/-- The page table translates page addresses as the map says. -/
structure Serves (m : Memory) (nodes : Tables) (root : Word) (map : PageMap) :
    Prop where
  root : nodes [] = some root
  target : ∀ {va}, Aligned va → Target (map va)
  entry : ∀ {va}, Aligned va → va.toNat < 2 ^ 39 →
    pteOf m nodes va = entryFor (map va)

namespace Serves

variable {m m' : Memory} {nodes nodes' : Tables} {root va : Word}
  {map map' : PageMap} {pages pages' : List Word}

theorem frame (h : Serves m nodes root map)
    (hsame : ∀ va, pteOf m' nodes va = pteOf m nodes va) :
    Serves m' nodes root map where
  root := h.root
  target := h.target
  entry := by
    intro va hva hmax
    rw [hsame]
    exact h.entry hva hmax

theorem congr (h : Serves m nodes root map)
    (hsame : ∀ va, Aligned va → map va = map' va) : Serves m nodes root map' where
  root := h.root
  target hva := hsame _ hva ▸ h.target hva
  entry hva hmax := hsame _ hva ▸ h.entry hva hmax

theorem rewrites (h : Serves m nodes root map) {target : Option (Word × Word)}
    (hva : Aligned va) (hmax : va.toNat < 2 ^ 39) (htarget : Target target)
    (hrewrites : Rewrites va (entryFor target) m m' nodes nodes' pages pages') :
    Serves m' nodes' root (Function.update map va target) where
  root := hrewrites.kept h.root
  target := by
    intro va' hva'
    by_cases hhere : va' = va
    · subst hhere
      rwa [Function.update_self]
    · rw [Function.update_of_ne hhere]
      exact h.target hva'
  entry := by
    intro va' hva' hmax'
    have hentry := hrewrites.entries (key va') rfl
    by_cases hhere : va' = va
    · subst hhere
      rw [if_pos rfl] at hentry
      rw [Function.update_self]
      exact hentry
    · rw [if_neg fun hkey => hhere (key_inj hva' hva hmax' hmax hkey)] at hentry
      rw [Function.update_of_ne hhere, pteOf, hentry]
      exact h.entry hva' hmax'

theorem entryAt (h : Serves m nodes root map) (htree : Radix sv39 2 m.page nodes)
    {va : Word} (hva : Aligned va) (hmax : va.toNat < 2 ^ 39) :
    entryAt m root va = entryFor (map va) := by
  rw [entryAt_eq htree h.root, h.entry hva hmax]

theorem agrees (h : Serves m nodes root map) (htree : Radix sv39 2 m.page nodes) :
    Agrees m root map := by
  intro va hva
  have haligned := pgRoundDown_aligned va
  have htarget := h.target haligned
  have hentry : pteOf m nodes va = entryFor (map (pgRoundDown va)) := by
    rw [← h.entry haligned (lt_maxVa (pgRoundDown_lt hva)), pteOf, pteOf,
      key_pgRoundDown]
  refine ⟨_, exec_walkLookup htree h.root va, ?_⟩
  rcases pteAddressOf_spec htree va with ⟨hzero, hpte⟩ | ⟨hne, hword⟩
  · have hvalid := VmInv.entryFor_valid htarget
    rw [← hentry, hpte] at hvalid
    have hnone : map (pgRoundDown va) = none := by simpa using hvalid
    simp [hzero, hnone]
  · rw [hword, hentry]
    refine ⟨(and_iff_right hne).trans (VmInv.entryFor_valid htarget),
      fun pa perm hsome => ?_⟩
    rw [hsome] at htarget ⊢
    obtain ⟨hpa, hlt, hperm⟩ := htarget
    exact ⟨leafPte_pa hperm hpa hlt, leafPte_flags hperm⟩

end Serves

/-! ## Where the kernel's tables are -/

/-- The paths from the root to the tables of the kernel: those for the 64 times
2 MiB of RAM, for the UART and for the stacks. -/
def kernelPaths : List (List (Fin 512)) :=
  [[], [2], [0], [255], [128, 0], [511, 255]] ++
    (List.finRange 64).map fun i => [i.castLE (by decide), 2]

/-- The addresses whose tables lie on these paths. -/
def KernelVa (va : Word) : Prop :=
  (kernBase ≤ va ∧ va < physTop) ∨ va = uart0 ∨ ∃ p, va = kstackVa p

theorem kernBase_toNat : kernBase.toNat = 0x80000000 := by decide

theorem kstackVa_toNat (p : Slot) :
    (kstackVa p).toNat = 2 ^ 38 - 4096 - (p.val + 1) * 8192 := by
  have hp : p.val < 64 := p.isLt
  have htramp : trampolineVa.toNat = 2 ^ 38 - 4096 := by decide
  have hone : (BitVec.ofNat 64 p.val + 1).toNat = p.val + 1 := by
    rw [BitVec.toNat_add, BitVec.toNat_ofNat]
    simp only [BitVec.reduceToNat]
    omega
  have hdown : ((BitVec.ofNat 64 p.val + 1) * 2 * pgSize).toNat = (p.val + 1) * 8192 := by
    rw [BitVec.toNat_mul, BitVec.toNat_mul, hone]
    simp only [pgSize, BitVec.reduceToNat]
    omega
  rw [kstackVa, BitVec.toNat_sub, htramp, hdown]
  omega

theorem tablePath_mem {va : Word} (h : KernelVa va) {level : Nat} (hlevel : level < 2) :
    tablePath va level ∈ kernelPaths := by
  have hpaths : ∀ {i j : Fin 512}, (i.val < 64 ∧ j.val = 2) ∨ (i.val = 128 ∧ j.val = 0) ∨
      (i.val = 511 ∧ j.val = 255) → [i, j] ∈ kernelPaths ∧ [j] ∈ kernelPaths := by
    intro i j hij
    simp only [kernelPaths, List.mem_append, List.mem_cons, List.mem_map,
      List.mem_finRange, List.cons.injEq, Fin.ext_iff]
    rcases hij with ⟨hi, hj⟩ | ⟨hi, hj⟩ | ⟨hi, hj⟩
    · exact ⟨.inr ⟨⟨i.val, hi⟩, trivial, by simp, by simp [hj]⟩, .inl (by simp [hj])⟩
    · exact ⟨.inl (by simp [hi, hj]), .inl (by simp [hj])⟩
    · exact ⟨.inl (by simp [hi, hj]), .inl (by simp [hj])⟩
  have hvpn : ((vpn va 1).val < 64 ∧ (vpn va 2).val = 2) ∨
      ((vpn va 1).val = 128 ∧ (vpn va 2).val = 0) ∨
      ((vpn va 1).val = 511 ∧ (vpn va 2).val = 255) := by
    simp only [vpn]
    rcases h with ⟨hlow, hhigh⟩ | rfl | ⟨p, rfl⟩
    · rw [BitVec.le_def, kernBase_toNat] at hlow
      rw [BitVec.lt_def, physTop_toNat] at hhigh
      omega
    · exact .inr (.inl (by decide))
    · have hp : p.val < 64 := p.isLt
      rw [kstackVa_toNat]
      omega
  obtain rfl | rfl : level = 0 ∨ level = 1 := by omega
  · exact (hpaths hvpn).1
  · exact (hpaths hvpn).2

/-! ## Memory while the kernel page table is being filled -/

/-- The trees of a kernel without processes. -/
def kernelTrees (nodes : Tables) : Option Slot → Tables
  | none => nodes
  | some _ => fun _ => none

/-- The kernel page table serves `map`, nothing has been taken from the free list
but its tables and the pages `kstacks`, and `room` pages were free at the start. -/
structure Boot (img : Image) (room : Nat) (m : Memory) (pages : List Word)
    (nodes : Tables) (root : Word) (map : PageMap) (kstacks : List Word) : Prop where
  owned : Ownership img m pages (kernelTrees nodes) (· ∈ kstacks)
  serves : Serves m nodes root map
  kernelPagetable : m.kernelPagetable = root
  paths : ∀ {path p}, nodes path = some p → path ∈ kernelPaths
  count : ∃ tables : List Word, tables.Nodup ∧ (∀ p ∈ tables, Radix.Owns nodes p) ∧
    room ≤ tables.length + kstacks.length + pages.length

theorem kernelTrees_update (nodes nodes' : Tables) :
    Function.update (kernelTrees nodes) none nodes' = kernelTrees nodes' := by
  funext t
  cases t with
  | none => rw [Function.update_self]; rfl
  | some p => rw [Function.update_of_ne (by simp)]; rfl

/-- The tables there and the tables missing on one way have different paths. -/
theorem length_add_missing_le {tables : List Word} {nodes : Tables} {va : Word}
    (hnodup : tables.Nodup) (howns : ∀ p ∈ tables, Radix.Owns nodes p)
    (hpaths : ∀ {path p}, nodes path = some p → path ∈ kernelPaths)
    (hva : KernelVa va) : tables.length + missing nodes va 2 ≤ 70 := by
  let there : List (Fin 512) → Bool := fun path => decide (nodes path ≠ none)
  have hthere : tables.length ≤ (kernelPaths.filter there).length := by
    refine Radix.length_le hnodup howns fun path p hp => ?_
    exact List.mem_filter.mpr ⟨hpaths hp, by simp [there, hp]⟩
  have hmissing : missing nodes va 2 ≤
      (kernelPaths.filter fun path => !there path).length := by
    have hway : [tablePath va 0, tablePath va 1].Nodup := by simp [tablePath]
    have hcount : missing nodes va 2 =
        ([tablePath va 0, tablePath va 1].filter fun path => !there path).length := by
      by_cases h₀ : nodes (tablePath va 0) = none <;>
        by_cases h₁ : nodes (tablePath va 1) = none <;>
          simp [missing, there, h₀, h₁]
    rw [hcount]
    refine (hway.filter _).subperm ?_ |>.length_le
    intro path hpath
    obtain ⟨hmem, hnone⟩ := List.mem_filter.mp hpath
    refine List.mem_filter.mpr ⟨?_, hnone⟩
    simp only [List.mem_cons, List.not_mem_nil, or_false] at hmem
    rcases hmem with rfl | rfl <;> exact tablePath_mem hva (by omega)
  have hsplit := List.length_eq_length_filter_add (l := kernelPaths) there
  have hlength : kernelPaths.length = 70 := by decide
  omega

namespace Boot

variable {img : Image} {room : Nat} {m : Memory} {pages rest : List Word}
  {nodes : Tables} {root va pa perm : Word} {map : PageMap} {kstacks : List Word}

theorem mapPage (range : Ranged img)
    (h : Boot img room m pages nodes root map kstacks) (hva : KernelVa va)
    (haligned : Aligned va) (hmax : va.toNat < 2 ^ 39) (hunmapped : map va = none)
    (htarget : Target (some (pa, perm))) (hroom : 70 + kstacks.length ≤ room) :
    ∃ m' pages' nodes', exec (mapPage root va pa perm) m = .ok (0, m') ∧
      Boot img room m' pages' nodes' root (Function.update map va (some (pa, perm)))
        kstacks := by
  obtain ⟨hpa, -, hperm⟩ := id htarget
  obtain ⟨tables, hnodup, howns, hcount⟩ := h.count
  have hpte : pteOf m nodes va &&& pteV = 0 := by
    rw [h.serves.entry haligned hmax, hunmapped]
    simp [entryFor]
  have hapart : Apart m nodes pages := h.owned.apart range none
  rcases exec_mapPage hapart h.serves.root haligned hpa hpte with
    ⟨m', nodes', pages', hexec, -, hr⟩ | ⟨-, hlen⟩
  · have howned := h.owned.rewrites range (t := none) hr
    rw [kernelTrees_update] at howned
    obtain ⟨new, hpages, hnew⟩ := hr.taken
    refine ⟨m', pages', nodes', hexec, howned,
      h.serves.rewrites haligned hmax htarget hr,
      hr.kernelPagetable.trans h.kernelPagetable, fun hp => ?_,
      new ++ tables, ?_, fun p hp => ?_, ?_⟩
    · rcases hr.paths hp with hold | ⟨level, hlevel, rfl⟩
      · exact h.paths hold
      · exact tablePath_mem hva hlevel
    · have hfree := hapart.free.nodup
      rw [hpages] at hfree
      refine (List.Nodup.of_append_left hfree).append hnodup fun p hp hold => ?_
      exact hapart.apart p (howns p hold) (by rw [hpages]; simp [hp])
    · rw [hnew]
      exact (List.mem_append.mp hp).symm.imp (howns p) id
    · rw [hpages] at hcount
      simp only [List.length_append] at hcount ⊢
      omega
  · have hbound := length_add_missing_le hnodup howns h.paths hva
    omega

/-- Seventy tables are enough. -/
theorem length_pages (h : Boot img room m pages nodes root map kstacks) {n : Nat}
    (hroom : 70 + kstacks.length + n ≤ room) : n ≤ pages.length := by
  obtain ⟨tables, hnodup, howns, hcount⟩ := h.count
  have hle := length_add_missing_le hnodup howns h.paths (.inr (.inl rfl))
  omega

theorem allocPage (h : Boot img room m pages nodes root map kstacks)
    (hroom : 70 + kstacks.length < room) :
    ∃ rest, pages = m.freelist :: rest ∧
      exec allocPage m = .ok (m.freelist, m.pop) ∧ m.freelist ≠ 0 ∧
      Boot img room m.pop rest nodes root map (m.freelist :: kstacks) := by
  have hpages : 1 ≤ pages.length := h.length_pages hroom
  have hfree : m.freelist ≠ 0 := by
    intro hzero
    have hchain := h.owned.free.chain
    rw [hzero] at hchain
    have hnil : pages = [] := hchain.eq_nil_iff.mp rfl
    simp [hnil] at hpages
  obtain ⟨tables, hnodup, howns, hcount⟩ := h.count
  obtain ⟨rest, rfl⟩ := h.owned.free.exists_cons hfree
  refine ⟨rest, rfl, exec_allocPage hfree, hfree, ?_,
    h.serves.frame (h.owned.pteOf_pop none), h.kernelPagetable, h.paths, tables, hnodup,
    howns, ?_⟩
  · simpa [or_comm] using h.owned.pop
  · simp only [List.length_cons] at hcount ⊢
    omega

end Boot

/-! ## `kvmmap` -/

/-- `n` pages from `va` on go to the pages from `pa` on. -/
def mapRange (map : PageMap) (va pa : Word) (n : Nat) (perm : Word) : PageMap :=
  fun v =>
    if Aligned v ∧ va.toNat ≤ v.toNat ∧ v.toNat < va.toNat + 4096 * n then
      some (pa + (v - va), perm)
    else map v

/-- What `kvmmap` is called with. -/
structure KvmArgs (map : PageMap) (va pa : Word) (n : Nat) (perm : Word) : Prop where
  va_aligned : Aligned va
  va_le : va.toNat + 4096 * n ≤ 2 ^ 38
  pa_aligned : Aligned pa
  pa_le : pa.toNat + 4096 * n ≤ 2 ^ 56
  perm_ok : Perm perm
  kernel : ∀ v, Aligned v → va.toNat ≤ v.toNat → v.toNat < va.toNat + 4096 * n →
    KernelVa v
  unmapped : ∀ v, Aligned v → va.toNat ≤ v.toNat →
    v.toNat < va.toNat + 4096 * n → map v = none

section Kvmmap

variable {img : Image} {room n : Nat} {m : Memory} {pages : List Word}
  {nodes : Tables} {root va pa perm : Word} {map : PageMap} {kstacks : List Word}

theorem toNat_add_pgSize {a : Word} (h : a.toNat + 4096 < 2 ^ 64) :
    (a + pgSize).toNat = a.toNat + 4096 := by
  rw [BitVec.toNat_add, show pgSize.toNat = 4096 by decide]
  omega

theorem mapRange_succ (hva : Aligned va) (hle : va.toNat + 4096 < 2 ^ 64) :
    mapRange (Function.update map va (some (pa, perm))) (va + pgSize) (pa + pgSize) n
      perm = mapRange map va pa (n + 1) perm := by
  funext v
  have hnext := toNat_add_pgSize hle
  by_cases hv : Aligned v
  · simp only [mapRange, hv, hnext, true_and]
    rw [aligned_iff] at hv hva
    by_cases hhere : v = va
    · subst hhere
      rw [if_neg (by omega), if_pos (by omega), Function.update_self]
      simp
    · have hne : v.toNat ≠ va.toNat := fun heq => hhere (BitVec.eq_of_toNat_eq heq)
      rw [Function.update_of_ne hhere]
      by_cases hin : va.toNat ≤ v.toNat ∧ v.toNat < va.toNat + 4096 * (n + 1)
      · rw [if_pos (by omega), if_pos hin]
        have hoffset : pa + pgSize + (v - (va + pgSize)) = pa + (v - va) := by
          simp only [BitVec.sub_eq_add_neg, BitVec.neg_add]
          ring_nf
        rw [hoffset]
      · rw [if_neg (by omega), if_neg hin]
  · have hhere : v ≠ va := fun heq => hv (heq ▸ hva)
    simp [mapRange, hv, Function.update_of_ne hhere]

theorem KvmArgs.next (args : KvmArgs map va pa (n + 1) perm) :
    KvmArgs (Function.update map va (some (pa, perm))) (va + pgSize) (pa + pgSize) n
      perm := by
  have hva := args.va_le
  have hpa := args.pa_le
  have hvaNext : (va + pgSize).toNat = va.toNat + 4096 := toNat_add_pgSize (by omega)
  have hpaNext : (pa + pgSize).toNat = pa.toNat + 4096 := toNat_add_pgSize (by omega)
  have haligned := aligned_iff.mp args.va_aligned
  have haligned' := aligned_iff.mp args.pa_aligned
  refine ⟨?_, by omega, ?_, by omega, args.perm_ok, fun v hv hlow hhigh => ?_,
    fun v hv hlow hhigh => ?_⟩
  · rw [aligned_iff]
    omega
  · rw [aligned_iff]
    omega
  · exact args.kernel v hv (by omega) (by omega)
  · have hhere : v ≠ va := by
      rintro rfl
      omega
    rw [Function.update_of_ne hhere]
    exact args.unmapped v hv (by omega) (by omega)

theorem Boot.kvmmapLoop (range : Ranged img) {last : Word}
    (hlast : last.toNat = va.toNat + 4096 * n)
    (h : Boot img room m pages nodes root map kstacks)
    (args : KvmArgs map va pa (n + 1) perm) (hroom : 70 + kstacks.length ≤ room) :
    ∃ m' pages' nodes', exec (kvmmapLoop root last perm (n + 1) va pa) m = .ok ((), m') ∧
      Boot img room m' pages' nodes' root (mapRange map va pa (n + 1) perm) kstacks := by
  induction n generalizing va pa map m pages nodes with
  | zero =>
      have hva := args.va_le
      have hpa := args.pa_le
      have htarget : Target (some (pa, perm)) :=
        ⟨args.pa_aligned, by omega, args.perm_ok⟩
      obtain ⟨m₁, pages₁, nodes₁, hexec₁, h₁⟩ := h.mapPage range
        (args.kernel va args.va_aligned (le_refl _) (by omega)) args.va_aligned (by omega)
        (args.unmapped va args.va_aligned (le_refl _) (by omega)) htarget hroom
      obtain rfl : last = va := BitVec.eq_of_toNat_eq (by omega)
      refine ⟨m₁, pages₁, nodes₁, by simp [Mm.kvmmapLoop, hexec₁], ?_⟩
      have hzero : ∀ map' va' pa', mapRange map' va' pa' 0 perm = map' := by
        intro map' va' pa'
        funext v
        exact if_neg (by omega)
      rw [← mapRange_succ args.va_aligned (by omega), hzero]
      exact h₁
  | succ n ih =>
      have hva := args.va_le
      have hpa := args.pa_le
      have htarget : Target (some (pa, perm)) :=
        ⟨args.pa_aligned, by omega, args.perm_ok⟩
      obtain ⟨m₁, pages₁, nodes₁, hexec₁, h₁⟩ := h.mapPage range
        (args.kernel va args.va_aligned (le_refl _) (by omega)) args.va_aligned (by omega)
        (args.unmapped va args.va_aligned (le_refl _) (by omega)) htarget hroom
      have hmore : ¬ va = last := by
        rintro rfl
        omega
      have hnext := toNat_add_pgSize (a := va) (by omega)
      obtain ⟨m₂, pages₂, nodes₂, hexec₂, h₂⟩ := ih (by omega) h₁ args.next
      refine ⟨m₂, pages₂, nodes₂, ?_, ?_⟩
      · rw [Mm.kvmmapLoop]
        simp [hexec₁, hmore, hexec₂]
      · rw [← mapRange_succ args.va_aligned (by omega)]
        exact h₂

theorem Boot.kvmmap (range : Ranged img) {sz : Word}
    (hsz : sz.toNat = 4096 * (n + 1))
    (h : Boot img room m pages nodes root map kstacks)
    (args : KvmArgs map va pa (n + 1) perm) (hroom : 70 + kstacks.length ≤ room) :
    ∃ m' pages' nodes', exec (kvmmap root va pa sz perm) m = .ok ((), m') ∧
      Boot img room m' pages' nodes' root (mapRange map va pa (n + 1) perm) kstacks := by
  have hva := args.va_le
  have haligned := aligned_iff.mp args.va_aligned
  have hne : ¬ sz = 0#64 := by
    rintro rfl
    simp at hsz
  have hlast : (pgRoundDown (va + sz - 1)).toNat = va.toNat + 4096 * n := by
    have hsum : (va + sz - 1).toNat = va.toNat + 4096 * (n + 1) - 1 := by
      rw [BitVec.toNat_sub, BitVec.toNat_add, hsz]
      simp only [BitVec.reduceToNat]
      omega
    rw [pgRoundDown_toNat, hsum]
    omega
  obtain ⟨m', pages', nodes', hexec, h'⟩ := h.kvmmapLoop range hlast args hroom
  refine ⟨m', pages', nodes', ?_, h'⟩
  have hrounds : (pgRoundDown (va + sz - 1) - va).toNat / 4096 + 1 = n + 1 := by
    rw [BitVec.toNat_sub, hlast]
    omega
  simp only [Mm.kvmmap, BitVec.ofNat_eq_ofNat, hne, if_false,
    pgRoundDown_of_aligned args.va_aligned]
  rw [← hexec, ← hrounds]
  rfl

theorem mapRange_one (hva : Aligned va) :
    mapRange map va pa 1 perm = Function.update map va (some (pa, perm)) := by
  rw [aligned_iff] at hva
  funext v
  by_cases hhere : v = va
  · subst hhere
    rw [mapRange, if_pos ⟨aligned_iff.mpr hva, by omega, by omega⟩, Function.update_self]
    simp
  · have hne : v.toNat ≠ va.toNat := fun heq => hhere (BitVec.eq_of_toNat_eq heq)
    rw [Function.update_of_ne hhere, mapRange, if_neg]
    rintro ⟨hv, hlow, hhigh⟩
    rw [aligned_iff] at hv
    omega

end Kvmmap

/-! ## `kvminit` -/

/-- The addresses the linker script gives, with enough pages above `end`. -/
structure KernelImage (img : Image) : Prop where
  etext_aligned : Aligned img.etext
  text : kernBase < img.etext
  data : img.etext < img.end_
  below : img.end_ < physTop
  room : (pgRoundUp img.end_).toNat + 134 * 4096 ≤ physTop.toNat

theorem KernelImage.ranged {img : Image} (h : KernelImage img) : Ranged img where
  ne_zero := by
    have hdata := h.data
    rintro hzero
    rw [hzero, BitVec.lt_def] at hdata
    simp at hdata
  below := h.below

theorem KernelImage.etext_le {img : Image} (h : KernelImage img) : img.etext ≤ physTop := by
  have hdata := h.data
  have hbelow := h.below
  rw [BitVec.lt_def] at hdata hbelow
  rw [BitVec.le_def]
  omega

/-- What `kvminit` maps. -/
def kvminitMap (img : Image) : PageMap := fun va =>
  if kernBase ≤ va ∧ va < img.etext then some (va, pteR ||| pteX)
  else if img.etext ≤ va ∧ va < physTop then some (va, pteR ||| pteW)
  else if va = uart0 then some (uart0, pteR ||| pteW)
  else none

section Kvminit

variable {img : Image} {m : Memory} {pages : List Word}

/-- The free list is as long as there is room between `end` and `PHYSTOP`. -/
theorem room_le {room : Nat} (hroom : (pgRoundUp img.end_).toNat + room * 4096 ≤ physTop.toNat)
    (hall : ∀ q, q ∈ pages ↔ Managed img q) : room ≤ pages.length := by
  have htop := physTop_toNat
  have hstart := aligned_iff.mp (pgRoundUp_aligned img.end_)
  have hnat : ∀ i < room, (BitVec.ofNat 64 ((pgRoundUp img.end_).toNat + i * 4096)).toNat =
      (pgRoundUp img.end_).toNat + i * 4096 := by
    intro i hi
    rw [BitVec.toNat_ofNat]
    omega
  let first := (List.range room).map fun i =>
    BitVec.ofNat 64 ((pgRoundUp img.end_).toNat + i * 4096)
  have hnodup : first.Nodup := by
    refine List.Nodup.map_on (fun i hi j hj heq => ?_) List.nodup_range
    rw [List.mem_range] at hi hj
    have hnats := congrArg BitVec.toNat heq
    rw [hnat i hi, hnat j hj] at hnats
    omega
  have hsub : first ⊆ pages := by
    intro q hq
    obtain ⟨i, hi, rfl⟩ := List.mem_map.mp hq
    rw [List.mem_range] at hi
    rw [hall, Managed, PageBetween, aligned_iff, hnat i hi]
    omega
  have hle := (hnodup.subperm hsub).length_le
  simpa [first] using hle

theorem Boot.start (range : Ranged img) {room : Nat} (hroom : room ≤ pages.length)
    (hpos : 0 < room) (hfree : FreeList m pages)
    (hall : ∀ q, q ∈ pages ↔ Managed img q) :
    ∃ m' rest nodes root, (exec createPagetable m = .ok (root, m')) ∧
      Boot img room { m' with kernelPagetable := root } rest nodes root
        (fun _ => none) [] := by
  have hne : m.freelist ≠ 0 := by
    intro hzero
    have hchain := hfree.chain
    rw [hzero] at hchain
    have hnil : pages = [] := hchain.eq_nil_iff.mp rfl
    rw [hnil] at hroom
    simp only [List.length_nil] at hroom
    omega
  obtain ⟨rest, rfl⟩ := hfree.exists_cons hne
  have hinit : Ownership img m (m.freelist :: rest) (kernelTrees fun _ => none)
      fun _ => False := by
    have h : Ownership img m (m.freelist :: rest)
        (fun _ : Option Slot => fun _ => none) fun _ => False := Ownership.init hfree hall
    convert h using 1
    funext t
    cases t <;> rfl
  have hcreate := hinit.create range (t := none) rfl
  rw [kernelTrees_update] at hcreate
  refine ⟨Ownership.zeroed m, rest, Ownership.rootOnly m.freelist, m.freelist,
    Ownership.exec_createPagetable hne, ?_, ⟨by simp [Ownership.rootOnly],
      fun _ => trivial, fun _ _ => Ownership.pteOf_rootOnly ..⟩, rfl, fun {path p} hp => ?_,
    [m.freelist], by simp, by simp [Ownership.owns_rootOnly], ?_⟩
  · have hsame : Ownership img { Ownership.zeroed m with kernelPagetable := m.freelist } rest
        _ _ := hcreate.write rfl fun _ _ _ _ _ => rfl
    simpa using hsame
  · have hpath : path = [] := by
      rcases Radix.node_update hp with ⟨heq, -⟩ | hbefore
      · exact heq
      · cases hbefore
    rw [hpath]
    decide
  · simp only [List.length_cons, List.length_nil] at hroom ⊢
    omega

theorem kvminitMap_eq (himg : KernelImage img) {va : Word} (hva : Aligned va) :
    mapRange (mapRange (mapRange (fun _ => none) kernBase kernBase
        ((img.etext - kernBase).toNat / 4096) (pteR ||| pteX))
        img.etext img.etext ((physTop - img.etext).toNat / 4096) (pteR ||| pteW))
        uart0 uart0 1 (pteR ||| pteW) va = kvminitMap img va := by
  have hkern := kernBase_toNat
  have htop := physTop_toNat
  have huart : uart0.toNat = 0x10000000 := by decide
  have htext := himg.text
  have hdata := himg.data
  have hbelow := himg.below
  have hetext := aligned_iff.mp himg.etext_aligned
  rw [BitVec.lt_def] at htext hdata hbelow
  have hfirst : (img.etext - kernBase).toNat = img.etext.toNat - kernBase.toNat :=
    BitVec.toNat_sub_of_le (BitVec.le_def.mpr htext.le)
  have hsecond : (physTop - img.etext).toNat = physTop.toNat - img.etext.toNat :=
    BitVec.toNat_sub_of_le (BitVec.le_def.mpr (by omega))
  have hself : ∀ a : Word, a + (va - a) = va := by
    intro a
    rw [BitVec.add_comm]
    exact BitVec.sub_add_cancel va a
  have hva' := aligned_iff.mp hva
  rw [mapRange_one (by decide), kvminitMap]
  by_cases hhere : va = uart0
  · subst hhere
    rw [Function.update_self, if_neg (by simp only [BitVec.le_def, BitVec.lt_def]; omega),
      if_neg (by simp only [BitVec.le_def, BitVec.lt_def]; omega), if_pos rfl]
  · rw [Function.update_of_ne hhere, if_neg hhere]
    simp only [mapRange, hva, hself, true_and, hfirst, hsecond, BitVec.le_def,
      BitVec.lt_def]
    by_cases hlow : kernBase.toNat ≤ va.toNat ∧ va.toNat < img.etext.toNat
    · rw [if_neg (by omega), if_pos (by omega), if_pos hlow]
    · by_cases hhigh : img.etext.toNat ≤ va.toNat ∧ va.toNat < physTop.toNat
      · rw [if_pos (by omega), if_neg hlow, if_pos hhigh]
      · rw [if_neg (by omega), if_neg (by omega), if_neg hlow, if_neg hhigh]

theorem exists_pages {low high : Nat} (hlow : low % 4096 = 0) (hhigh : high % 4096 = 0)
    (h : low < high) : ∃ n, high = low + 4096 * (n + 1) :=
  ⟨(high - low) / 4096 - 1, by omega⟩

theorem kvminit_sizes (himg : KernelImage img) :
    ∃ n₁ n₂, (img.etext - kernBase).toNat = 4096 * (n₁ + 1) ∧
      img.etext.toNat = kernBase.toNat + 4096 * (n₁ + 1) ∧
      (physTop - img.etext).toNat = 4096 * (n₂ + 1) ∧
      physTop.toNat = img.etext.toNat + 4096 * (n₂ + 1) := by
  have hkern := kernBase_toNat
  have htop := physTop_toNat
  have htext := himg.text
  have hdata := himg.data
  have hbelow := himg.below
  have hetext := aligned_iff.mp himg.etext_aligned
  rw [BitVec.lt_def] at htext hdata hbelow
  have hfirst : (img.etext - kernBase).toNat = img.etext.toNat - kernBase.toNat :=
    BitVec.toNat_sub_of_le (BitVec.le_def.mpr htext.le)
  have hsecond : (physTop - img.etext).toNat = physTop.toNat - img.etext.toNat :=
    BitVec.toNat_sub_of_le (BitVec.le_def.mpr (by omega))
  obtain ⟨n₁, hn₁⟩ := exists_pages (by decide) hetext htext
  obtain ⟨n₂, hn₂⟩ := exists_pages hetext (by decide) (hdata.trans hbelow)
  exact ⟨n₁, n₂, by omega, hn₁, by omega, hn₂⟩

section Args

variable {n₁ n₂ : Nat} {map : PageMap}

theorem text_args (hn₁ : img.etext.toNat = kernBase.toNat + 4096 * (n₁ + 1))
    (hbelow : img.etext.toNat ≤ physTop.toNat) :
    KvmArgs (fun _ => none) kernBase kernBase (n₁ + 1) (pteR ||| pteX) := by
  have hkern := kernBase_toNat
  have htop := physTop_toNat
  refine ⟨by decide, by omega, by decide, by omega, by decide, fun v _ hlow hhigh => ?_,
    fun _ _ _ _ => rfl⟩
  exact .inl ⟨BitVec.le_def.mpr hlow, BitVec.lt_def.mpr (by omega)⟩

theorem data_args (haligned : Aligned img.etext)
    (hn₁ : img.etext.toNat = kernBase.toNat + 4096 * (n₁ + 1))
    (hn₂ : physTop.toNat = img.etext.toNat + 4096 * (n₂ + 1)) :
    KvmArgs (mapRange (fun _ => none) kernBase kernBase (n₁ + 1) (pteR ||| pteX))
      img.etext img.etext (n₂ + 1) (pteR ||| pteW) := by
  have hkern := kernBase_toNat
  have htop := physTop_toNat
  refine ⟨haligned, by omega, haligned, by omega, by decide, fun v _ hlow hhigh => ?_,
    fun v _ hlow _ => ?_⟩
  · exact .inl ⟨BitVec.le_def.mpr (by omega), BitVec.lt_def.mpr (by omega)⟩
  · rw [mapRange, if_neg (by omega)]

theorem uart_args
    (hn₁ : img.etext.toNat = kernBase.toNat + 4096 * (n₁ + 1)) :
    KvmArgs (mapRange (mapRange (fun _ => none) kernBase kernBase (n₁ + 1)
        (pteR ||| pteX)) img.etext img.etext (n₂ + 1) (pteR ||| pteW))
      uart0 uart0 1 (pteR ||| pteW) := by
  have hkern := kernBase_toNat
  have huart : uart0.toNat = 0x10000000 := by decide
  refine ⟨by decide, by omega, by decide, by omega, by decide, fun v hv hlow hhigh => ?_,
    fun v _ hlow hhigh => ?_⟩
  · rw [aligned_iff] at hv
    exact .inr (.inl (BitVec.eq_of_toNat_eq (by omega)))
  · rw [mapRange, if_neg (by omega), mapRange, if_neg (by omega)]

end Args

theorem exec_kvminit (himg : KernelImage img) {room : Nat} (hroom : room ≤ pages.length)
    (henough : 70 ≤ room) (hfree : FreeList m pages)
    (hall : ∀ q, q ∈ pages ↔ Managed img q) :
    ∃ m' pages' nodes root, exec (kvminit img) m = .ok ((), m') ∧
      Boot img room m' pages' nodes root (kvminitMap img) [] := by
  obtain ⟨n₁, n₂, hsz₁, hn₁, hsz₂, hn₂⟩ := kvminit_sizes himg
  obtain ⟨m₀, pages₀, nodes₀, root, hexec₀, h₀⟩ :=
    Boot.start himg.ranged hroom (by omega) hfree hall
  obtain ⟨m₁, pages₁, nodes₁, hexec₁, h₁⟩ := h₀.kvmmap himg.ranged hsz₁
    (text_args hn₁ (by omega)) henough
  obtain ⟨m₂, pages₂, nodes₂, hexec₂, h₂⟩ := h₁.kvmmap himg.ranged hsz₂
    (data_args himg.etext_aligned hn₁ hn₂) henough
  obtain ⟨m₃, pages₃, nodes₃, hexec₃, h₃⟩ := h₂.kvmmap himg.ranged
    (show pgSize.toNat = 4096 * (0 + 1) by decide) (uart_args hn₁) henough
  refine ⟨m₃, pages₃, nodes₃, root, ?_, h₃.owned, h₃.serves.congr fun va hva => ?_,
    h₃.kernelPagetable, h₃.paths, h₃.count⟩
  · exact exec_bind_ok.mpr ⟨_, _, hexec₀, exec_bind_ok.mpr ⟨_, _, exec_touch .., 
      exec_bind_ok.mpr ⟨_, _, hexec₁, exec_bind_ok.mpr ⟨_, _, hexec₂, hexec₃⟩⟩⟩⟩
  · rw [← kvminitMap_eq himg hva, hsz₁, hsz₂]
    simp

end Kvminit

/-! ## `procinit` -/

/-- What the kernel page table maps after `procinit` has given the slots the stacks
`kstack`. -/
def kernelMap (img : Image) (kstack : Slot → Word) : PageMap := fun va =>
  match (List.finRange nproc).find? fun p => kstackVa p = va with
  | some p => some (kstack p, pteR ||| pteW)
  | none => kvminitMap img va

section Procinit

variable {img : Image} {room : Nat} {m : Memory} {pages : List Word} {nodes : Tables}
  {root : Word} {map : PageMap} {kstacks : List Word}

theorem kstackVa_inj {p q : Slot} (h : kstackVa p = kstackVa q) : p = q := by
  have hnat := congrArg BitVec.toNat h
  rw [kstackVa_toNat, kstackVa_toNat] at hnat
  have hp : p.val < 64 := p.isLt
  have hq : q.val < 64 := q.isLt
  exact Fin.ext (by omega)

theorem kstackVa_aligned (p : Slot) : Aligned (kstackVa p) := by
  have hp : p.val < 64 := p.isLt
  rw [aligned_iff, kstackVa_toNat]
  omega

theorem Boot.kstack (range : Ranged img)
    (h : Boot img room m pages nodes root map kstacks) {p : Slot}
    (hunmapped : map (kstackVa p) = none) (hroom : 70 + kstacks.length < room) :
    ∃ m' pages' nodes', exec (procinitSlot p) m = .ok ((), m') ∧
      m.freelist ∉ kstacks ∧
      Boot img room m' pages' nodes' root
        (Function.update map (kstackVa p) (some (m.freelist, pteR ||| pteW)))
        (m.freelist :: kstacks) := by
  obtain ⟨rest, rfl, hexec, hne, h₁⟩ := h.allocPage hroom
  have hmanaged : Managed img m.freelist := h.owned.managed_free (by simp)
  have hhigh := hmanaged.2.2
  have htop := physTop_toNat
  have hp : p.val < 64 := p.isLt
  have hva := kstackVa_toNat p
  have hnew : m.freelist ∉ kstacks := fun hmem => h.owned.others_free hmem (by simp)
  have args : KvmArgs map (kstackVa p) m.freelist (0 + 1) (pteR ||| pteW) := by
    have honly : ∀ v, Aligned v → (kstackVa p).toNat ≤ v.toNat →
        v.toNat < (kstackVa p).toNat + 4096 * (0 + 1) → v = kstackVa p := by
      intro v hv hlow hhigh
      have halign := aligned_iff.mp (kstackVa_aligned p)
      rw [aligned_iff] at hv
      exact BitVec.eq_of_toNat_eq (by omega)
    exact ⟨kstackVa_aligned p, by omega, hmanaged.aligned, by omega, by decide,
      fun v hv hlow hhigh => .inr (.inr ⟨p, honly v hv hlow hhigh⟩),
      fun v hv hlow hhigh => honly v hv hlow hhigh ▸ hunmapped⟩
  obtain ⟨m', pages', nodes', hexec', h'⟩ := h₁.kvmmap range
    (by decide : pgSize.toNat = 4096 * (0 + 1))
    args (by simp only [List.length_cons]; omega)
  rw [mapRange_one (kstackVa_aligned p)] at h'
  refine ⟨m', pages', nodes', ?_, hnew, h'⟩
  have hne' : ¬ m.freelist = 0 := hne
  have hroot : m.kernelPagetable = root := h.kernelPagetable
  refine exec_bind_ok.mpr ⟨_, _, hexec, ?_⟩
  rw [if_neg hne']
  refine exec_bind_ok.mpr ⟨_, _, exec_touch .., ?_⟩
  rw [show m.pop.kernelPagetable = root from hroot]
  exact hexec'

theorem Boot.allKstacks (range : Ranged img) {todo : List Slot} (hnodup : todo.Nodup)
    (h : Boot img room m pages nodes root map kstacks)
    (hunmapped : ∀ p ∈ todo, map (kstackVa p) = none)
    (hroom : 70 + kstacks.length + todo.length ≤ room) :
    ∃ m' pages' nodes' map' kstacks', ∃ kstack : Slot → Word,
      exec (Program.forEach todo procinitSlot) m = .ok ((), m') ∧
      Boot img room m' pages' nodes' root map' kstacks' ∧
      (∀ p ∈ todo, map' (kstackVa p) = some (kstack p, pteR ||| pteW)) ∧
      (∀ va, (∀ p ∈ todo, va ≠ kstackVa p) → map' va = map va) ∧
      kstacks'.length = kstacks.length + todo.length ∧
      (∀ q, q ∈ kstacks' ↔ q ∈ kstacks ∨ ∃ p ∈ todo, kstack p = q) ∧
      (∀ p ∈ todo, kstack p ∉ kstacks) ∧
      ∀ p ∈ todo, ∀ q ∈ todo, kstack p = kstack q → p = q := by
  induction todo generalizing m pages nodes map kstacks with
  | nil =>
      exact ⟨m, pages, nodes, map, kstacks, fun _ => 0, rfl, h, by simp, by simp, rfl,
        by simp, by simp, by simp⟩
  | cons p todo ih =>
      obtain ⟨hp, hnodup'⟩ := List.nodup_cons.mp hnodup
      simp only [List.length_cons] at hroom
      obtain ⟨m₁, pages₁, nodes₁, hslot, hnew, h₁⟩ :=
        h.kstack range (hunmapped p (by simp)) (by omega)
      have hother : ∀ q ∈ todo, q ≠ p := by
        rintro q hq rfl
        exact hp hq
      obtain ⟨m₂, pages₂, nodes₂, map₂, kstacks₂, kstack, hexec, h₂, hmap, hrest, hlength,
          hall, hfresh, hinj⟩ := ih hnodup' h₁ (fun q hq => by
        rw [Function.update_of_ne fun heq => hother q hq (kstackVa_inj heq)]
        exact hunmapped q (by simp [hq])) (by simp only [List.length_cons]; omega)
      have hself : Function.update kstack p m.freelist p = m.freelist :=
        Function.update_self ..
      have hkeep : ∀ q ∈ todo, Function.update kstack p m.freelist q = kstack q :=
        fun q hq => Function.update_of_ne (hother q hq) _ _
      refine ⟨m₂, pages₂, nodes₂, map₂, kstacks₂, Function.update kstack p m.freelist,
        exec_bind_ok.mpr ⟨_, _, hslot, hexec⟩, h₂, fun q hq => ?_, fun va hva => ?_,
        ?_, fun q => ?_, fun q hq => ?_, ?_⟩
      · rcases List.mem_cons.mp hq with rfl | hmem
        · rw [hself, hrest _ fun q' hq' heq => hother q' hq' (kstackVa_inj heq).symm,
            Function.update_self]
        · rw [hkeep q hmem, hmap q hmem]
      · rw [hrest va fun q hq => hva q (by simp [hq]),
          Function.update_of_ne (hva p (by simp))]
      · rw [hlength, List.length_cons, List.length_cons]
        omega
      · rw [hall, List.mem_cons]
        constructor
        · rintro ((rfl | hold) | ⟨q', hq', rfl⟩)
          · exact .inr ⟨p, by simp, hself⟩
          · exact .inl hold
          · exact .inr ⟨q', by simp [hq'], hkeep q' hq'⟩
        · rintro (hold | ⟨q', hq', rfl⟩)
          · exact .inl (.inr hold)
          · rcases List.mem_cons.mp hq' with rfl | hmem
            · exact .inl (.inl hself)
            · exact .inr ⟨q', hmem, (hkeep q' hmem).symm⟩
      · rcases List.mem_cons.mp hq with rfl | hmem
        · rwa [hself]
        · rw [hkeep q hmem]
          exact fun hold => hfresh q hmem (List.mem_cons_of_mem _ hold)
      · have hapart : ∀ q ∈ todo, m.freelist ≠ kstack q := fun q hq heq =>
          hfresh q hq (heq ▸ List.mem_cons_self ..)
        intro q hq q' hq' heq
        rcases List.mem_cons.mp hq with rfl | hmem <;>
          rcases List.mem_cons.mp hq' with rfl | hmem'
        · rfl
        · rw [hself, hkeep q' hmem'] at heq
          exact absurd heq (hapart q' hmem')
        · rw [hself, hkeep q hmem] at heq
          exact absurd heq.symm (hapart q hmem)
        · rw [hkeep q hmem, hkeep q' hmem'] at heq
          exact hinj q hmem q' hmem' heq

end Procinit

/-! ## The address space -/

def bootMemory (img : Image) : MemM Unit := do
  pmmInit img
  kvminit img
  procinit

/-- The address space of the kernel, with the physical pages of the stacks. -/
structure KernelSpace (img : Image) (m : Memory) (kstack : Slot → Word) : Prop where
  translates : Agrees m m.kernelPagetable (kernelMap img kstack)
  kstack_inj : ∀ {p q}, kstack p = kstack q → p = q
  kstack_managed : ∀ p, Managed img (kstack p)
  kstack_taken : ∀ p, ¬ Free m (kstack p)
  guard : ∀ p, entryAt m m.kernelPagetable (kstackVa p - pgSize) &&& pteV = 0 ∧
    entryAt m m.kernelPagetable (kstackVa p + pgSize) &&& pteV = 0
  /-- No physical page can be both written and executed. -/
  write_xor_execute : ∀ va va', Aligned va → va < maxVa → Aligned va' → va' < maxVa →
    entryAt m m.kernelPagetable va &&& pteV ≠ 0 →
    entryAt m m.kernelPagetable va' &&& pteV ≠ 0 →
    pte2pa (entryAt m m.kernelPagetable va) = pte2pa (entryAt m m.kernelPagetable va') →
    entryAt m m.kernelPagetable va &&& pteW ≠ 0 →
    entryAt m m.kernelPagetable va' &&& pteX = 0

section Space

variable {img : Image} {m : Memory} {kstack : Slot → Word}

theorem kernelMap_kstack (p : Slot) :
    kernelMap img kstack (kstackVa p) = some (kstack p, pteR ||| pteW) := by
  have hfind : ((List.finRange nproc).find? fun q => kstackVa q = kstackVa p) = some p := by
    cases hcase : (List.finRange nproc).find? fun q => kstackVa q = kstackVa p with
    | none =>
        have hnone := List.find?_eq_none.mp hcase p (List.mem_finRange p)
        simp at hnone
    | some q =>
        have hq := List.find?_some hcase
        rw [decide_eq_true_eq] at hq
        rw [kstackVa_inj hq]
  rw [kernelMap, hfind]

theorem kernelMap_other {va : Word} (h : ∀ p, va ≠ kstackVa p) :
    kernelMap img kstack va = kvminitMap img va := by
  have hfind : ((List.finRange nproc).find? fun q => kstackVa q = va) = none := by
    rw [List.find?_eq_none]
    intro q _ hq
    rw [decide_eq_true_eq] at hq
    exact h q hq.symm
  rw [kernelMap, hfind]

/-- Text is the only thing executable, and it lies below everything writable. -/
theorem kernelMap_cases {va pa perm : Word}
    (h : kernelMap img kstack va = some (pa, perm)) :
    (perm = pteR ||| pteX ∧ kernBase ≤ pa ∧ pa < img.etext) ∨
      (perm = pteR ||| pteW ∧ (img.etext ≤ pa ∨ pa = uart0 ∨ ∃ p, pa = kstack p)) := by
  by_cases hstack : ∃ p, va = kstackVa p
  · obtain ⟨p, rfl⟩ := hstack
    rw [kernelMap_kstack] at h
    cases h
    exact .inr ⟨rfl, .inr (.inr ⟨p, rfl⟩)⟩
  · rw [kernelMap_other fun p hp => hstack ⟨p, hp⟩, kvminitMap] at h
    split at h
    · next hin =>
        cases h
        exact .inl ⟨rfl, hin⟩
    · split at h
      · next hin =>
          cases h
          exact .inr ⟨rfl, .inl hin.1⟩
      · split at h
        · cases h
          exact .inr ⟨rfl, .inr (.inl rfl)⟩
        · cases h

theorem kvminitMap_high {va : Word} (htop : physTop ≤ va) (htext : img.etext ≤ physTop) :
    kvminitMap img va = none := by
  have hnat := physTop_toNat
  have huart : uart0.toNat = 0x10000000 := by decide
  rw [BitVec.le_def] at htop htext
  have hne : va ≠ uart0 := by
    rintro rfl
    omega
  rw [kvminitMap, if_neg, if_neg, if_neg hne]
  · simp only [BitVec.le_def, BitVec.lt_def]
    omega
  · simp only [BitVec.le_def, BitVec.lt_def]
    omega

/-- Stacks lie two pages apart, so their neighbours are not mapped. -/
theorem kernelMap_guard (htext : img.etext ≤ physTop) {va : Word} {p : Slot}
    (h : va.toNat + 4096 = (kstackVa p).toNat ∨ va.toNat = (kstackVa p).toNat + 4096) :
    kernelMap img kstack va = none := by
  have hnat := physTop_toNat
  have hp : p.val < 64 := p.isLt
  rw [kstackVa_toNat] at h
  have hother : ∀ q, va ≠ kstackVa q := by
    rintro q rfl
    have hq : q.val < 64 := q.isLt
    rw [kstackVa_toNat] at h
    omega
  rw [kernelMap_other hother]
  refine kvminitMap_high ?_ htext
  rw [BitVec.le_def]
  omega

theorem kernelMap_eq {map : PageMap}
    (hstacks : ∀ p, map (kstackVa p) = some (kstack p, pteR ||| pteW))
    (hrest : ∀ va, (∀ p, va ≠ kstackVa p) → map va = kvminitMap img va) (va : Word) :
    map va = kernelMap img kstack va := by
  by_cases hstack : ∃ p, va = kstackVa p
  · obtain ⟨p, rfl⟩ := hstack
    rw [hstacks, kernelMap_kstack]
  · rw [hrest va fun p hp => hstack ⟨p, hp⟩, kernelMap_other fun p hp => hstack ⟨p, hp⟩]

/-- The whole boot: no panic, and the tables and stacks are all that was taken. -/
theorem exec_bootMemory (himg : KernelImage img) {room : Nat}
    (hroom : (pgRoundUp img.end_).toNat + room * 4096 ≤ physTop.toNat) (henough : 134 ≤ room)
    {m₀ : Memory} (hzero : m₀.freelist = 0) :
    ∃ m pages nodes root kstacks, ∃ kstack : Slot → Word,
      exec (bootMemory img) m₀ = .ok ((), m) ∧
      Boot img room m pages nodes root (kernelMap img kstack) kstacks ∧
      kstacks.length = 64 ∧
      (∀ q, q ∈ kstacks ↔ ∃ p, kstack p = q) ∧
      ∀ p q, kstack p = kstack q → p = q := by
  obtain ⟨m₁, pages₁, hexec₁, hfree, hall⟩ :=
    pmmInit_exec himg.ranged.ne_zero himg.below hzero
  obtain ⟨m₂, pages₂, nodes₂, root, hexec₂, h₂⟩ := exec_kvminit himg
    (room_le hroom hall) (by omega) hfree hall
  have hunmapped : ∀ p ∈ List.finRange nproc, kvminitMap img (kstackVa p) = none := by
    intro p _
    refine kvminitMap_high ?_ himg.etext_le
    have hp : p.val < 64 := p.isLt
    rw [BitVec.le_def, kstackVa_toNat, physTop_toNat]
    omega
  have hslots : (List.finRange nproc).length = 64 := List.length_finRange
  obtain ⟨m₃, pages₃, nodes₃, map₃, kstacks, kstack, hexec₃, h₃, hmap, hrest, hlength,
      hkstacks, -, hinj⟩ := h₂.allKstacks himg.ranged (List.nodup_finRange nproc) hunmapped
    (by rw [hslots]; exact henough)
  refine ⟨m₃, pages₃, nodes₃, root, kstacks, kstack, ?_, ⟨h₃.owned,
    h₃.serves.congr fun va _ => ?_, h₃.kernelPagetable, h₃.paths, h₃.count⟩,
    hlength.trans (by rw [hslots]; rfl), ?_, ?_⟩
  · exact exec_bind_ok.mpr ⟨_, _, hexec₁, exec_bind_ok.mpr ⟨_, _, hexec₂, hexec₃⟩⟩
  · exact kernelMap_eq (fun p => hmap p (List.mem_finRange p))
      (fun va hva => hrest va fun p _ => hva p) va
  · simpa using hkstacks
  · exact fun p q => hinj p (List.mem_finRange p) q (List.mem_finRange q)

/-- The pages on both sides of a stack. -/
theorem kernelMap_guards (htext : img.etext ≤ physTop) (p : Slot) {va : Word}
    (hva : va = kstackVa p - pgSize ∨ va = kstackVa p + pgSize) :
    Aligned va ∧ va < maxVa ∧ kernelMap img kstack va = none := by
  have hp : p.val < 64 := p.isLt
  have hstack := kstackVa_toNat p
  have haligned := aligned_iff.mp (kstackVa_aligned p)
  have hmax : maxVa.toNat = 2 ^ 38 := by decide
  have hlow : (kstackVa p - pgSize).toNat + 4096 = (kstackVa p).toNat := by
    rw [BitVec.toNat_sub_of_le (by rw [BitVec.le_def, hstack]; simp [pgSize]; omega),
      show pgSize.toNat = 4096 by decide]
    omega
  have hhigh : (kstackVa p + pgSize).toNat = (kstackVa p).toNat + 4096 :=
    toNat_add_pgSize (by omega)
  have hnear : va.toNat + 4096 = (kstackVa p).toNat ∨ va.toNat = (kstackVa p).toNat + 4096 := by
    rcases hva with rfl | rfl
    · exact .inl hlow
    · exact .inr hhigh
  exact ⟨aligned_iff.mpr (by omega), BitVec.lt_def.mpr (by omega), kernelMap_guard htext hnear⟩

/-- A page that can be written lies outside the text. -/
theorem kernelMap_xor (himg : KernelImage img) (hmanaged : ∀ p, Managed img (kstack p))
    {va va' pa perm perm' : Word} (hmap : kernelMap img kstack va = some (pa, perm))
    (hmap' : kernelMap img kstack va' = some (pa, perm')) :
    perm = pteR ||| pteX ∨ perm' = pteR ||| pteW := by
  rcases kernelMap_cases hmap with ⟨rfl, -, -⟩ | ⟨rfl, hwhere⟩
  · exact .inl rfl
  rcases kernelMap_cases hmap' with ⟨rfl, hlow, hhigh⟩ | ⟨rfl, -⟩
  · have hdata := himg.data
    rw [BitVec.lt_def] at hdata hhigh
    rw [BitVec.le_def, kernBase_toNat] at hlow
    rcases hwhere with hin | rfl | ⟨p, rfl⟩
    · rw [BitVec.le_def] at hin
      omega
    · have huart : uart0.toNat = 0x10000000 := by decide
      omega
    · have hstart := (hmanaged p).2.1
      have hend := (end_le_pgRoundUp himg.below).1
      omega
  · exact .inr rfl

theorem entryFor_some {map : PageMap} {va : Word} (htarget : Target (map va))
    (hvalid : entryFor (map va) &&& pteV ≠ 0) :
    ∃ pa perm, map va = some (pa, perm) ∧ pte2pa (entryFor (map va)) = pa ∧
      ∀ flag : Word, flag &&& 0x3FF = flag →
        entryFor (map va) &&& flag = (perm ||| pteV) &&& flag := by
  cases hmap : map va with
  | none => simp [hmap, entryFor] at hvalid
  | some pair =>
      obtain ⟨pa, perm⟩ := pair
      rw [hmap] at htarget
      obtain ⟨hpa, hlt, hperm⟩ := htarget
      refine ⟨pa, perm, rfl, leafPte_pa hperm hpa hlt, fun flag hflag => ?_⟩
      rw [entryFor, leafPte_eq, pa2pte_or_and hperm.flags_lt hflag]

end Space

theorem kernel_space {img : Image} (himg : KernelImage img) {m₀ : Memory}
    (hzero : m₀.freelist = 0) :
    ∃ m kstack, exec (bootMemory img) m₀ = .ok ((), m) ∧ KernelSpace img m kstack := by
  obtain ⟨m, pages, nodes, root, kstacks, kstack, hexec, h, -, hkstacks, hinj⟩ :=
    exec_bootMemory himg himg.room (le_refl _) hzero
  have htree : Radix sv39 2 m.page nodes := h.owned.tree none
  have hmanaged : ∀ p, Managed img (kstack p) := fun p =>
    h.owned.managed_other ((hkstacks _).mpr ⟨p, rfl⟩)
  have hentry : ∀ {va}, Aligned va → va < maxVa →
      entryAt m m.kernelPagetable va = entryFor (kernelMap img kstack va) := by
    intro va hva hmax
    rw [h.kernelPagetable]
    exact h.serves.entryAt htree hva (lt_maxVa hmax)
  have hguard : ∀ p va, va = kstackVa p - pgSize ∨ va = kstackVa p + pgSize →
      entryAt m m.kernelPagetable va &&& pteV = 0 := by
    intro p va hva
    obtain ⟨haligned, hmax, hnone⟩ := kernelMap_guards himg.etext_le p hva
    rw [hentry haligned hmax, hnone]
    rfl
  refine ⟨m, kstack, hexec, h.kernelPagetable ▸ h.serves.agrees htree, @hinj, hmanaged,
    fun p hfree => ?_, fun p => ⟨hguard p _ (.inl rfl), hguard p _ (.inr rfl)⟩, ?_⟩
  · rw [h.owned.free.free_iff] at hfree
    exact h.owned.others_free ((hkstacks _).mpr ⟨p, rfl⟩) hfree
  · intro va va' hva hmax hva' hmax' hvalid hvalid' hsame hwrite
    rw [hentry hva hmax] at hvalid hsame hwrite
    rw [hentry hva' hmax'] at hvalid' hsame ⊢
    obtain ⟨pa, perm, hmap, hpa, hflags⟩ := entryFor_some (h.serves.target hva) hvalid
    obtain ⟨pa', perm', hmap', hpa', hflags'⟩ := entryFor_some (h.serves.target hva') hvalid'
    rw [hpa, hpa'] at hsame
    subst hsame
    rw [hflags _ (by decide)] at hwrite
    rw [hflags' _ (by decide)]
    rcases kernelMap_xor himg hmanaged hmap hmap' with rfl | rfl
    · exact absurd (by decide) hwrite
    · decide

theorem kernel_space_sample :
    ∃ m kstack, exec (bootMemory sampleImage) ⟨fun _ => 0, 0, 0⟩ = .ok ((), m) ∧
      KernelSpace sampleImage m kstack :=
  kernel_space ⟨by decide, by decide, by decide, by decide, by decide⟩ rfl

end Xv6Kernel.Mm
