import Xv6Kernel.Mm.PageTableRuns

/-!
# Tables built by calls of `map_page`

`map_page` takes any 64-bit address; of its page number the walks use the low 27
bits.
-/

namespace Xv6Kernel.Mm

open Xv6Kernel.Foundation

variable {m m' : Memory} {nodes : Tables} {pages : List Word} {root va va' pa perm : Word}
  {r : Int}

/-! ## One call -/

/-- A call that comes back has refused the arguments or set one entry. -/
theorem mapPage_cases (h : Apart m nodes pages) (hroot : nodes [] = some root)
    (hexec : exec (mapPage root va pa perm) m = .ok (r, m')) :
    (r = -1 ∧ m' = m ∧ ¬ (Aligned va ∧ Aligned pa)) ∨
      (r = 0 ∧ Aligned va ∧ Aligned pa ∧ pteOf m nodes va &&& pteV = 0 ∧
        ∃ nodes' pages', Rewrites va (leafPte pa perm) m m' nodes nodes' pages pages') := by
  by_cases haligned : Aligned va ∧ Aligned pa
  · refine .inr ?_
    obtain ⟨hva, hpa⟩ := haligned
    by_cases hmapped : pteOf m nodes va &&& pteV = 0
    · rcases exec_mapPage h hroot hva hpa hmapped with
        ⟨m'', nodes', pages', hexec', -, hr⟩ | ⟨hexec', -⟩
      · rw [hexec'] at hexec
        cases hexec
        exact ⟨rfl, hva, hpa, hmapped, nodes', pages', hr⟩
      · rw [hexec'] at hexec
        cases hexec
    · -- an entry that is there already
      have hva' : va % pgSize = 0#64 := hva
      have hpa' : pa % pgSize = 0#64 := hpa
      have hmapped' : ¬ pteOf m nodes va &&& pteV = 0#64 := hmapped
      rcases exec_walkCreate h hroot va with ⟨m'', nodes', pages', p, hwalk, hp, hr⟩ | ⟨hwalk, -⟩
      · have hword : m''.word (cell p (vpn va 0)) = pteOf m nodes va := by
          have hsame := hr.entries (key va) rfl
          rw [if_pos rfl] at hsame
          rw [← hsame, key, Radix.entry_of_node hp]
          rfl
        have hne : ¬ cell p (vpn va 0) = 0#64 := cell_ne_zero (hr.tree.table hp) _
        simp [mapPage, hva', hpa', hwalk, hne, hword, hmapped'] at hexec
      · simp [mapPage, hva', hpa', hwalk] at hexec
  · have hrefused : va % pgSize ≠ 0#64 ∨ pa % pgSize ≠ 0#64 := not_and_or.mp haligned
    simp only [mapPage, ne_eq, show (0 : Word) = 0#64 from rfl, hrefused, if_true] at hexec
    cases hexec
    exact .inl ⟨rfl, rfl, haligned⟩

/-! ## Any number of calls -/

/-- The table at `root` was made by `create_pagetable` from a well-formed free list and
filled by `map_page` with permissions that are `allowed`. -/
inductive BuiltWith (allowed : Word → Prop) (root : Word) : Memory → Prop where
  | create {m m' : Memory} {pages : List Word} (free : FreeList m pages)
      (table : ∀ p ∈ pages, sv39.Table p)
      (hexec : exec createPagetable m = .ok (root, m')) : BuiltWith allowed root m'
  | map {m m' : Memory} {va pa perm : Word} {r : Int} (before : BuiltWith allowed root m)
      (hperm : allowed perm)
      (hexec : exec (mapPage root va pa perm) m = .ok (r, m')) : BuiltWith allowed root m'

/-- Any calls of `map_page`. -/
abbrev Built : Word → Memory → Prop := BuiltWith fun _ => True

theorem apart_create (free : FreeList m pages) (table : ∀ p ∈ pages, sv39.Table p)
    (hexec : exec createPagetable m = .ok (root, m')) :
    Apart m' (Ownership.rootOnly root) pages.tail := by
  have hfree : m.freelist ≠ 0 := by
    intro hzero
    simp [createPagetable, exec_allocPage_empty hzero] at hexec
  rw [Ownership.exec_createPagetable hfree] at hexec
  cases hexec
  obtain ⟨rest, rfl⟩ := free.exists_cons hfree
  have hhead := table m.freelist List.mem_cons_self
  have hnew : m.freelist ∉ rest := (List.nodup_cons.mp free.nodup).1
  have hnode : ∀ {path p}, Ownership.rootOnly m.freelist path = some p →
      path = [] ∧ p = m.freelist := fun hp => (Radix.node_update hp).resolve_right (by simp)
  refine ⟨⟨fun hp => (hnode hp).2 ▸ hhead, fun hp => ?_, fun hp => ?_,
    fun hp hp' => (hnode hp).1.trans (hnode hp').1.symm, fun hp _ i => ?_, fun hp hlen => ?_⟩,
    free.pop.frame rfl fun q hq => ?_, fun p hp => table p (List.mem_cons_of_mem _ hp),
    fun p hp => ?_⟩
  · simp [(hnode hp).1]
  · exact absurd (hnode hp).1 (by simp)
  · obtain ⟨rfl, rfl⟩ := hnode hp
    rw [Ownership.zeroed_page hhead.1]
    rfl
  · rw [(hnode hp).1] at hlen
    simp at hlen
  · have hqTable := table q (List.mem_cons_of_mem _ hq)
    refine Memory.fill_out _ _ fun hin => hnew ?_
    rwa [inPage_unique hhead.1 hqTable.1 hin (inPage_self hqTable.1)]
  · rw [Ownership.owns_rootOnly.mp hp]
    exact hnew

theorem BuiltWith.apart {allowed : Word → Prop} (built : BuiltWith allowed root m) :
    ∃ nodes pages, Apart m nodes pages ∧ nodes [] = some root := by
  induction built with
  | create free table hexec =>
      exact ⟨_, _, apart_create free table hexec, by simp [Ownership.rootOnly]⟩
  | map before hperm hexec ih =>
      obtain ⟨nodes, pages, h, hroot⟩ := ih
      rcases mapPage_cases h hroot hexec with ⟨-, rfl, -⟩ | ⟨-, -, -, -, nodes', pages', hr⟩
      · exact ⟨nodes, pages, h, hroot⟩
      · exact ⟨nodes', pages', hr.apart h, hr.kept hroot⟩

/-! ## Aliases -/

/-- The addresses agree in the 27 bits of the page number that the walks use. -/
def SameIndices (va va' : Word) : Prop :=
  va.toNat / 4096 % 2 ^ 27 = va'.toNat / 4096 % 2 ^ 27

instance (va va' : Word) : Decidable (SameIndices va va') := inferInstanceAs (Decidable (_ = _))

theorem key_eq_iff : key va = key va' ↔ SameIndices va va' := by
  simp only [key, tablePath, vpn, List.cons.injEq, Fin.mk.injEq, and_true, SameIndices]
  omega

/-- A call changes no entry, or it changes the entry that exactly the addresses with the
indices of `va` lead to; among pages below 512 GiB that is the page `va` alone. -/
theorem mapPage_sets_one_entry (built : Built root m) (hva : Aligned va)
    (hexec : exec (mapPage root va pa perm) m = .ok (r, m')) :
    (r = -1 ∧ ∀ va', entryAt m' root va' = entryAt m root va') ∨
      (r = 0 ∧ entryAt m root va &&& pteV = 0 ∧
        (∀ va', SameIndices va va' → entryAt m' root va' = leafPte pa perm) ∧
        (∀ va', ¬ SameIndices va va' → entryAt m' root va' = entryAt m root va') ∧
        (va.toNat < 2 ^ 39 → ∀ va', Aligned va' → va'.toNat < 2 ^ 39 → va' ≠ va →
          entryAt m' root va' = entryAt m root va')) := by
  obtain ⟨nodes, pages, h, hroot⟩ := built.apart
  rcases mapPage_cases h hroot hexec with
    ⟨rfl, rfl, -⟩ | ⟨rfl, -, -, hunmapped, nodes', pages', hr⟩
  · exact .inl ⟨rfl, fun _ => rfl⟩
  · have hentry : ∀ va', entryAt m' root va' =
        if key va' = key va then leafPte pa perm else entryAt m root va' := by
      intro va'
      rw [entryAt_eq hr.tree (hr.kept hroot), entryAt_eq h.tree hroot, pteOf, pteOf,
        hr.entries _ rfl]
    refine .inr ⟨rfl, ?_, fun va' hsame => ?_, fun va' hother => ?_,
      fun hlt va' hva' hlt' hne => ?_⟩
    · rwa [entryAt_eq h.tree hroot]
    · rw [hentry, if_pos (key_eq_iff.mpr hsame.symm)]
    · rw [hentry, if_neg fun hkey => hother (key_eq_iff.mp hkey).symm]
    · rw [hentry, if_neg fun hkey => hne (key_inj hva' hva hlt' hlt hkey)]

/-- Three free pages, one after the other. -/
def threePages : Memory where
  word a :=
    if a = kernBase then kernBase + pgSize
    else if a = kernBase + pgSize then kernBase + 2 * pgSize else 0
  freelist := kernBase
  kernelPagetable := 0

theorem freeList_threePages :
    FreeList threePages [kernBase, kernBase + pgSize, kernBase + 2 * pgSize] where
  chain := by
    refine ⟨rfl, by decide, by decide, by decide, by decide, by decide, ?_⟩
    show threePages.word (kernBase + 2 * pgSize) = 0
    decide
  aligned := by
    simp only [List.mem_cons, List.not_mem_nil, or_false, forall_eq_or_imp, forall_eq]
    decide

theorem table_threePages :
    ∀ p ∈ [kernBase, kernBase + pgSize, kernBase + 2 * pgSize], sv39.Table p := by
  simp only [List.mem_cons, List.not_mem_nil, or_false, forall_eq_or_imp, forall_eq]
  exact ⟨⟨by decide, by decide, by decide⟩, ⟨by decide, by decide, by decide⟩,
    ⟨by decide, by decide, by decide⟩⟩

theorem built_threePages (allowed : Word → Prop) : ∃ m nodes,
    BuiltWith allowed kernBase m ∧ nodes [] = some kernBase ∧
    Apart m nodes [kernBase + pgSize, kernBase + 2 * pgSize] ∧ ∀ va, pteOf m nodes va = 0 := by
  have hexec : exec createPagetable threePages = .ok (kernBase, Ownership.zeroed threePages) :=
    Ownership.exec_createPagetable (by decide)
  exact ⟨_, _, .create freeList_threePages table_threePages hexec,
    by simp [Ownership.rootOnly], apart_create freeList_threePages table_threePages hexec,
    Ownership.pteOf_rootOnly _ _⟩

theorem exec_map_threePages (allowed : Word → Prop) (hva : Aligned va) : ∃ m m',
    BuiltWith allowed kernBase m ∧ exec (mapPage kernBase va kernBase pteR) m = .ok (0, m') ∧
    ∀ va, entryAt m kernBase va = 0 := by
  obtain ⟨m, nodes, built, hroot, h, hempty⟩ := built_threePages allowed
  rcases exec_mapPage h hroot hva (show Aligned kernBase by decide)
    (by rw [hempty]; decide) with
    ⟨m', -, -, hexec, -⟩ | ⟨-, hshort⟩
  · exact ⟨m, m', built, hexec, fun va => by rw [entryAt_eq h.tree hroot, hempty]⟩
  · have hle := missing_le nodes va 2
    simp only [List.length_cons, List.length_nil] at hshort
    omega

theorem mapPage_sets_one_entry_sample : ∃ m m', Built kernBase m ∧
    entryAt m' kernBase 0 = leafPte kernBase pteR ∧
    entryAt m' kernBase pgSize = entryAt m kernBase pgSize := by
  obtain ⟨m, m', built, hexec, -⟩ :=
    exec_map_threePages (fun _ => True) (show Aligned 0 by decide)
  rcases mapPage_sets_one_entry built (by decide) hexec with
    ⟨hrefused, -⟩ | ⟨-, -, hsame, hother, -⟩
  · exact absurd hrefused (by decide)
  · exact ⟨m, m', built, hsame 0 rfl, hother pgSize (by decide)⟩

/-- After the call for address 0 the page at 512 GiB is reported as mapped. -/
theorem mapPage_aliases : ¬ ∀ root m m' va pa perm r, Built root m → Aligned va →
    exec (mapPage root va pa perm) m = .ok (r, m') →
    (r ≠ 0 ∧ ∀ va', entryAt m' root va' = entryAt m root va') ∨
      (r = 0 ∧ ∀ va', Aligned va' → va' ≠ va → entryAt m' root va' = entryAt m root va') := by
  intro hclaim
  obtain ⟨m, m', built, hexec, hempty⟩ :=
    exec_map_threePages (fun _ => True) (show Aligned 0 by decide)
  obtain ⟨nodes, pages, h, hroot⟩ := built.apart
  rcases mapPage_cases h hroot hexec with
    ⟨hrefused, -⟩ | ⟨-, -, -, -, nodes', pages', hr⟩
  · exact absurd hrefused (by decide)
  rcases hclaim _ _ _ _ _ _ _ built (by decide) hexec with ⟨hne, -⟩ | ⟨-, hsame⟩
  · exact hne rfl
  · have hentry := hsame (1 <<< 39) (by decide) (by decide)
    have hkey : key (1 <<< 39) = key 0 := by decide
    rw [hempty, entryAt_eq hr.tree (hr.kept hroot), pteOf, hr.entries _ rfl, if_pos hkey] at hentry
    exact absurd hentry (by decide)

end Xv6Kernel.Mm
