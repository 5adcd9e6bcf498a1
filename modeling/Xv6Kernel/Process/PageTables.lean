import Xv6Kernel.Mm.KernelSpace
import Xv6Kernel.Mm.Teardown
import Xv6Kernel.Process.Proc

/-!
# The page tables of processes

What `proc_pagetable` builds from three free pages, and that
`proc_freepagetable` gives these three back and nothing that was mapped.
-/

namespace Xv6Kernel.Process

open Xv6Kernel.Foundation Xv6Kernel.Mm

/-- What the page table of every process maps; the second entry leads to the
physical address `PGSIZE`. -/
def procMap (img : Image) : PageMap := fun va =>
  if va = trapframeVa then some (pgSize, pteR ||| pteW)
  else if va = trampolineVa then some (img.trampoline, pteR ||| pteX)
  else none

theorem procMap_trampoline (img : Image) :
    procMap img trampolineVa = some (img.trampoline, pteR ||| pteX) := by
  rw [procMap, if_neg (by decide), if_pos rfl]

theorem procMap_trapframe (img : Image) :
    procMap img trapframeVa = some (pgSize, pteR ||| pteW) :=
  if_pos rfl

local instance entries_neZero : NeZero 512 := ⟨by decide⟩

/-- Where the three tables of a process are. -/
def procPaths : List (List (Fin 512)) := [[], [255], [511, 255]]

/-- The linker script puts `trampoline.S` on a page of its own in the text. -/
structure Trampoline (img : Image) : Prop where
  aligned : Aligned img.trampoline
  below : img.trampoline < img.end_

theorem Trampoline.target {img : Image} (tramp : Trampoline img) (range : Ranged img) :
    Target (some (img.trampoline, pteR ||| pteX)) := by
  have hlow := tramp.below
  have htop := range.below
  rw [BitVec.lt_def] at hlow htop
  rw [physTop_toNat] at htop
  exact ⟨tramp.aligned, by omega, by decide⟩

/-- A page table as `proc_pagetable` makes them. -/
structure ProcTables (img : Image) (m : Memory) (nodes : Tables) (root : Word) : Prop where
  serves : Serves m nodes root (procMap img)
  paths : ∀ path, (∃ p, nodes path = some p) ↔ path ∈ procPaths

theorem ProcTables.frame {img : Image} {m m' : Memory} {nodes : Tables} {root : Word}
    (h : ProcTables img m nodes root) (hsame : ∀ va, pteOf m' nodes va = pteOf m nodes va) :
    ProcTables img m' nodes root :=
  ⟨h.serves.frame hsame, h.paths⟩

/-- The trees of others show the same entries. -/
def SameEntries {τ : Type} (m m' : Memory) (trees : τ → Tables) (t : τ) : Prop :=
  ∀ t', t' ≠ t → ∀ va, pteOf m' (trees t') va = pteOf m (trees t') va

section

variable {τ : Type} [DecidableEq τ] {img : Image} {m m' : Memory} {pages pages' : List Word}
  {trees : τ → Tables} {others : Word → Prop} {t : τ} {root va pte : Word}
  {nodes' : Tables} {map : PageMap}

theorem sameEntries_rewrites (h : Ownership img m pages trees others)
    (hr : Rewrites va pte m m' (trees t) nodes' pages pages') :
    SameEntries m m' trees t := by
  intro t' hne va'
  have hsame : pteOf m' (Function.update trees t nodes' t') va' = pteOf m (trees t') va' :=
    h.pteOf_update (fun q hq hfree hown a ha =>
      h.rewrites_same hr hq hfree hown ha) hne va'
  rwa [Function.update_of_ne hne] at hsame

theorem tablePath_proc : tablePath trampolineVa 0 = [511, 255] ∧
    tablePath trampolineVa 1 = [255] ∧ tablePath trapframeVa 0 = [511, 255] ∧
    tablePath trapframeVa 1 = [255] := by decide

theorem paths_of_leaf {nodes : Tables} (h : Radix sv39 2 m.page nodes) {p : Word}
    (hleaf : nodes [511, 255] = some p)
    (hpaths : ∀ path q, nodes path = some q → path ∈ procPaths) (path : List (Fin 512)) :
    (∃ q, nodes path = some q) ↔ path ∈ procPaths := by
  obtain ⟨q, hq⟩ := h.parent hleaf
  obtain ⟨r, hr⟩ := h.parent hq
  constructor
  · rintro ⟨q', hq'⟩
    exact hpaths path q' hq'
  · simp only [procPaths, List.mem_cons, List.not_mem_nil, or_false]
    rintro (rfl | rfl | rfl)
    · exact ⟨r, hr⟩
    · exact ⟨q, hq⟩
    · exact ⟨p, hleaf⟩

/-- Nothing but the root leaves both tables missing. -/
theorem missing_rootOnly (root : Word) :
    missing (Ownership.rootOnly root) trampolineVa 2 = 2 := by
  have hnone : ∀ path, path ≠ [] → Ownership.rootOnly root path = none := fun path hpath =>
    Function.update_of_ne hpath _ _
  rw [missing, missing, missing, tablePath_proc.1, tablePath_proc.2.1, hnone _ (by simp),
    hnone _ (by simp)]
  rfl

theorem taken_two {nodes : Tables} {rest rest' : List Word}
    (hr : Rewrites trampolineVa pte m m' (Ownership.rootOnly root) nodes rest rest')
    (hleaf : ∃ p, nodes (tablePath trampolineVa 0) = some p) : 2 ≤ rest.length := by
  obtain ⟨p, hp⟩ := hleaf
  rw [tablePath_proc.1] at hp
  obtain ⟨q, hq⟩ := hr.tree.parent hp
  obtain ⟨new, rfl, howns⟩ := hr.taken
  have hroot : nodes [] = some root := hr.kept (Function.update_self ..)
  have hnew : ∀ {path r}, path ≠ [] → nodes path = some r → r ∈ new := by
    intro path r hpath hnode
    rcases (howns r).mp ⟨path, hnode⟩ with hold | hmem
    · rw [Ownership.owns_rootOnly] at hold
      subst hold
      exact absurd (hr.tree.injective hnode hroot) hpath
    · exact hmem
  have hne : p ≠ q := by
    rintro rfl
    have heq := hr.tree.injective hp hq
    simp at heq
  have hnodup : [p, q].Nodup := by simpa using hne
  have hsub : [p, q] ⊆ new := by
    intro r hmem
    simp only [List.mem_cons, List.not_mem_nil, or_false] at hmem
    rcases hmem with rfl | rfl
    · exact hnew (by simp) hp
    · exact hnew (by simp) hq
  have hle := (hnodup.subperm hsub).length_le
  simp only [List.length_cons, List.length_nil, List.length_append] at hle ⊢
  omega

/-- Memory after `proc_pagetable` has answered `root`. -/
structure Built (img : Image) (m m' : Memory) (pages' : List Word) (trees : τ → Tables)
    (others : Word → Prop) (t : τ) (nodes : Tables) (root : Word) : Prop where
  owned : Ownership img m' pages' (Function.update trees t nodes) others
  tables : ProcTables img m' nodes root
  ne_zero : root ≠ 0
  same : SameEntries m m' trees t
  kernelPagetable : m'.kernelPagetable = m.kernelPagetable

theorem serves_empty {m : Memory} {root : Word} :
    Serves m (Ownership.rootOnly root) root fun _ => none where
  root := Function.update_self ..
  target _ := trivial
  entry _ _ := Ownership.pteOf_rootOnly ..

omit [DecidableEq τ] in
theorem SameEntries.trans {m'' : Memory} (h : SameEntries m m' trees t)
    (h' : SameEntries m' m'' trees t) : SameEntries m m'' trees t := fun t' hne va =>
  (h' t' hne va).trans (h t' hne va)

theorem sameEntries_update {nodes : Tables} :
    SameEntries m m' (Function.update trees t nodes) t ↔ SameEntries m m' trees t := by
  refine forall_congr' fun t' => forall_congr' fun hne => ?_
  rw [Function.update_of_ne hne]

theorem sameEntries_create {rest : List Word}
    (h : Ownership img m (m.freelist :: rest) trees others) :
    SameEntries m (Ownership.zeroed m) trees t := by
  intro t' hne va
  have hsame : pteOf (Ownership.zeroed m) (Function.update trees t
      (Ownership.rootOnly m.freelist) t') va = pteOf m (trees t') va :=
    h.pteOf_update (fun q hq hfree _ a ha => h.zeroed_same hq hfree ha) hne va
  rwa [Function.update_of_ne hne] at hsame

/-- `map_page` of a page that the table of `t` does not map. -/
theorem exec_map_serves {nodes : Tables} {pa perm : Word} (range : Ranged img)
    (h : Ownership img m pages (Function.update trees t nodes) others)
    (hserves : Serves m nodes root map) (hva : Aligned va) (hmax : va.toNat < 2 ^ 39)
    (hunmapped : map va = none) (htarget : Target (some (pa, perm))) :
    (∃ m' nodes' pages', exec (mapPage root va pa perm) m = .ok (0, m') ∧
      Ownership img m' pages' (Function.update trees t nodes') others ∧
      Serves m' nodes' root (Function.update map va (some (pa, perm))) ∧
      SameEntries m m' trees t ∧ (∃ p, nodes' (tablePath va 0) = some p) ∧
      Rewrites va (leafPte pa perm) m m' nodes nodes' pages pages') ∨
    (exec (mapPage root va pa perm) m = .error (.panic "alloc_page") ∧
      pages.length < missing nodes va 2) := by
  obtain ⟨hpa, -, -⟩ := id htarget
  have hapart := h.apart range t
  rw [Function.update_self] at hapart
  have hinvalid : pteOf m nodes va &&& pteV = 0 := by
    rw [hserves.entry hva hmax, hunmapped]
    rfl
  refine (exec_mapPage hapart hserves.root hva hpa hinvalid).imp ?_ id
  rintro ⟨m', nodes', pages', hexec, hp, hr⟩
  have hr' : Rewrites va (leafPte pa perm) m m' (Function.update trees t nodes t) nodes' pages
      pages' := by rwa [Function.update_self]
  have h' := h.rewrites range hr'
  rw [Function.update_idem] at h'
  exact ⟨m', nodes', pages', hexec, h', hserves.rewrites hva hmax htarget hr,
    sameEntries_update.mp (sameEntries_rewrites h hr'), hp, hr⟩

theorem procPaths_rewrites {nodes : Tables} (hva : va = trampolineVa ∨ va = trapframeVa)
    (hr : Rewrites va pte m m' nodes nodes' pages pages')
    (hpaths : ∀ {path q}, nodes path = some q → path ∈ procPaths) {path : List (Fin 512)}
    {q : Word} (hnode : nodes' path = some q) : path ∈ procPaths := by
  rcases hr.paths hnode with hold | ⟨level, hlevel, rfl⟩
  · exact hpaths hold
  · obtain rfl | rfl : level = 0 ∨ level = 1 := by omega
    · rcases hva with rfl | rfl <;> decide
    · rcases hva with rfl | rfl <;> decide

theorem procPaths_rootOnly {path : List (Fin 512)} {q : Word}
    (hnode : Ownership.rootOnly root path = some q) : path ∈ procPaths := by
  rcases Radix.node_update hnode with ⟨rfl, -⟩ | hbefore
  · decide
  · cases hbefore

theorem exec_procPagetable (range : Ranged img) (tramp : Trampoline img)
    (h : Ownership img m pages trees others) (hempty : trees t = fun _ => none) :
    (3 ≤ pages.length ∧ ∃ m' pages' nodes root,
      exec (procPagetable img) m = .ok (root, m') ∧
        Built img m m' pages' trees others t nodes root) ∨
      (pages.length < 3 ∧
        exec (procPagetable img) m = .error (.panic "alloc_page")) := by
  by_cases hfree : m.freelist = 0
  · have hnil : pages = [] := by
      have hchain := h.free.chain
      rw [hfree] at hchain
      exact hchain.eq_nil_iff.mp rfl
    refine .inr ⟨by simp [hnil], ?_⟩
    simp [procPagetable, createPagetable, exec_allocPage_empty hfree]
  obtain ⟨rest, rfl⟩ := h.free.exists_cons hfree
  have hne : ¬ m.freelist = 0#64 := hfree
  have hcreate := Ownership.exec_createPagetable hfree
  have h₁ := h.create range hempty
  have hserves : Serves (Ownership.zeroed m) (Ownership.rootOnly m.freelist) m.freelist
      fun _ => none := serves_empty
  rcases exec_map_serves range h₁ hserves (by decide : Aligned trampolineVa) (by decide) rfl
      (tramp.target range) with
    ⟨m₂, nodes₂, pages₂, hmap₂, h₂, hserves₂, hsame₂, hp₂, hr₂⟩ | ⟨hmap₂, hlen⟩
  · have htwo := taken_two hr₂ hp₂
    obtain ⟨p, hp⟩ := hp₂
    rw [tablePath_proc.1] at hp
    have htarget : Target (some (pgSize, pteR ||| pteW)) := ⟨by decide, by decide, by decide⟩
    rcases exec_map_serves range h₂ hserves₂ (by decide : Aligned trapframeVa) (by decide)
        (Function.update_of_ne (by decide) ..) htarget with
      ⟨m₃, nodes₃, pages₃, hmap₃, h₃, hserves₃, hsame₃, -, hr₃⟩ | ⟨-, hlen⟩
    · refine .inl ⟨by simp only [List.length_cons]; omega, m₃, pages₃, nodes₃, m.freelist,
        ?_, h₃, ⟨hserves₃.congr fun va _ => ?_, ?_⟩, hfree, ?_, ?_⟩
      · simp [procPagetable, hcreate, hne, hmap₂, hmap₃]
      · simp only [procMap, Function.update_apply]
      · exact paths_of_leaf hr₃.tree (hr₃.kept hp) fun path r =>
          procPaths_rewrites (.inr rfl) hr₃
            (procPaths_rewrites (.inl rfl) hr₂ procPaths_rootOnly)
      · exact ((sameEntries_create h).trans hsame₂).trans hsame₃
      · rw [hr₃.kernelPagetable, hr₂.kernelPagetable]
        rfl
    -- Both tables on the way to `TRAPFRAME` are there for the trampoline.
    · obtain ⟨q, hq⟩ := hr₂.tree.parent hp
      rw [missing, missing, missing, tablePath_proc.2.2.1, tablePath_proc.2.2.2, hp, hq]
        at hlen
      simp at hlen
  · rw [missing_rootOnly] at hlen
    refine .inr ⟨by simp only [List.length_cons]; omega, ?_⟩
    simp [procPagetable, hcreate, hne, hmap₂]

/-! ## `proc_freepagetable` -/

theorem exec_unmap_serves (range : Ranged img) (h : Ownership img m pages trees others)
    (hserves : Serves m (trees t) root map) (hva : Aligned va)
    (hmax : va.toNat < 2 ^ 39) (hmapped : map va ≠ none) :
    ∃ m', exec (unmapPage root va) m = .ok ((), m') ∧
      Ownership img m' pages trees others ∧
      Serves m' (trees t) root (Function.update map va none) ∧
      SameEntries m m' trees t ∧ m'.kernelPagetable = m.kernelPagetable := by
  have hvalid : pteOf m (trees t) va &&& pteV ≠ 0 := by
    rw [hserves.entry hva hmax]
    exact (VmInv.entryFor_valid (hserves.target hva)).mpr hmapped
  obtain ⟨m', hexec, hr⟩ := exec_unmapPage (h.apart range t) hserves.root hvalid
  have h' := h.rewrites range hr
  rw [Function.update_eq_self] at h'
  have htarget : Target none := trivial
  exact ⟨m', hexec, h', hserves.rewrites hva hmax htarget hr, sameEntries_rewrites h hr,
    hr.kernelPagetable⟩

/-- `proc_freepagetable` frees the three tables and neither the trampoline nor what
`TRAPFRAME` leads to. -/
theorem exec_procFreepagetable (range : Ranged img) (h : Ownership img m pages trees others)
    (htables : ProcTables img m (trees t) root) (sz : Word) :
    ∃ m' pages', exec (procFreepagetable img root sz) m = .ok ((), m') ∧
      Ownership img m' pages' (Function.update trees t fun _ => none) others ∧
      SameEntries m m' trees t ∧ m'.kernelPagetable = m.kernelPagetable := by
  obtain ⟨m₁, hexec₁, h₁, hserves₁, hsame₁, hkernel₁⟩ := exec_unmap_serves range h
    htables.serves (by decide : Aligned trampolineVa) (by decide)
    (by rw [procMap_trampoline]; simp)
  obtain ⟨m₂, hexec₂, h₂, hserves₂, hsame₂, hkernel₂⟩ := exec_unmap_serves range h₁
    hserves₁ (by decide : Aligned trapframeVa) (by decide)
    (by rw [Function.update_of_ne (by decide), procMap_trapframe]; simp)
  have hnothing : ∀ va, Function.update (Function.update (procMap img) trampolineVa none)
      trapframeVa none va = none := by
    intro va
    by_cases hframe : va = trapframeVa
    · rw [hframe, Function.update_self]
    · rw [Function.update_of_ne hframe]
      by_cases htramp : va = trampolineVa
      · rw [htramp, Function.update_self]
      · rw [Function.update_of_ne htramp, procMap, if_neg hframe, if_neg htramp]
  obtain ⟨m₃, pages₃, hexec₃, h₃, hkernel₃, -, hwords⟩ := h₂.exec_destroy range
    hserves₂.root fun k hk => by
      obtain ⟨va, hva, hmax, rfl⟩ := exists_key hk
      have hentry := hserves₂.entry hva hmax
      rw [hnothing] at hentry
      exact hentry
  refine ⟨m₃, pages₃, ?_, h₃, fun t' hne va => ?_, by rw [hkernel₃, hkernel₂, hkernel₁]⟩
  · exact exec_bind_ok.mpr ⟨_, _, hexec₁, exec_bind_ok.mpr ⟨_, _, hexec₂, hexec₃⟩⟩
  · have hsame₃ : pteOf m₃ (Function.update trees t (fun _ => none) t') va =
        pteOf m₂ (trees t') va := h₂.pteOf_update hwords hne va
    rw [Function.update_of_ne hne] at hsame₃
    rw [hsame₃, hsame₂ t' hne, hsame₁ t' hne]

end

end Xv6Kernel.Process
