import Xv6Kernel.Mm.PageTableRuns
import Xv6Kernel.Mm.Teardown

/-!
# Destroying the page tables of a run

The runs of `PageTableRuns`, with a record of the pages that left the free list
for each table.  `destroy_pagetable` gives back these and the pages that are
still mapped.
-/

namespace Xv6Kernel.Mm

open Xv6Kernel.Foundation Relation

structure TableState where
  vm : VmState
  /-- The pages that were taken from the free list for a table, by its root. -/
  taken : Word → Set Word

/-- The pages a call took, beside those taken before. -/
def TableState.take (s : TableState) (root : Word) (m : Memory) : Set Word :=
  s.taken root ∪ {p | Free s.vm.memory p ∧ ¬ Free m p}

inductive TableStep (img : Image) : TableState → TableState → Prop where
  | owner {s : TableState} {a : AllocState}
      (hstep : AllocStep img ⟨s.vm.memory, s.vm.outstanding⟩ a) :
      TableStep img s ⟨⟨a.memory, a.outstanding, s.vm.maps⟩, s.taken⟩
  | create {s : TableState} {root : Word} {m : Memory}
      (hexec : exec createPagetable s.vm.memory = .ok (root, m)) :
      TableStep img s
        ⟨⟨m, s.vm.outstanding, Function.update s.vm.maps root (some fun _ => none)⟩,
          Function.update s.taken root (s.take root m)⟩
  | map {s : TableState} {root va pa perm : Word} {map : PageMap} {result : Int}
      {m : Memory} (args : MapArgs s.vm root va pa perm map)
      (hexec : exec (mapPage root va pa perm) s.vm.memory = .ok (result, m)) :
      TableStep img s
        ⟨⟨m, s.vm.outstanding, Function.update s.vm.maps root
            (some (Function.update map va (some (pa, perm))))⟩,
          Function.update s.taken root (s.take root m)⟩
  | unmap {s : TableState} {root va : Word} {map : PageMap} {m : Memory}
      (args : UnmapArgs s.vm root va map)
      (hexec : exec (unmapPage root va) s.vm.memory = .ok ((), m)) :
      TableStep img s
        ⟨⟨m, s.vm.outstanding, Function.update s.vm.maps root
            (some (Function.update map va none))⟩,
          Function.update s.taken root (s.take root m)⟩

theorem TableStep.vm {img : Image} {s s' : TableState} (h : TableStep img s s') :
    VmStep img s.vm s'.vm := by
  cases h with
  | owner hstep => exact .owner hstep
  | create hexec => exact .create hexec
  | map args hexec => exact .map args hexec
  | unmap args hexec => exact .unmap args hexec

/-! ## The pages taken are the tables -/

structure TableInv (img : Image) (s : TableState) (pages : List Word)
    (trees : Word → Tables) : Prop extends VmInv img s.vm pages trees where
  taken : ∀ root p, p ∈ s.taken root ↔ Radix.Owns (trees root) p

namespace TableInv

variable {img : Image} {s s' : TableState} {pages rest : List Word}
  {trees : Word → Tables}

/-- A call on one table takes the pages that become tables of it. -/
theorem take (h : TableInv img s pages trees) {root : Word} {m : Memory}
    {new : List Word} {nodes' : Tables} (hpages : pages = new ++ rest)
    (hfree : FreeList m rest)
    (howns : ∀ p, Radix.Owns nodes' p ↔ Radix.Owns (trees root) p ∨ p ∈ new)
    (r p : Word) :
    p ∈ Function.update s.taken root (s.take root m) r ↔
      Radix.Owns (Function.update trees root nodes' r) p := by
  by_cases heq : r = root
  · subst heq
    have hnodup := h.owned.free.nodup
    rw [hpages] at hnodup
    have hdisjoint := List.disjoint_of_nodup_append hnodup
    have hnew : p ∈ new ++ rest ∧ p ∉ rest ↔ p ∈ new := by
      rw [List.mem_append]
      constructor
      · rintro ⟨hmem, hout⟩
        exact hmem.resolve_right hout
      · exact fun hmem => ⟨.inl hmem, fun hold => hdisjoint hmem hold⟩
    rw [Function.update_self, Function.update_self, howns, TableState.take,
      Set.mem_union, Set.mem_ofPred_eq, h.owned.free.free_iff, hfree.free_iff, h.taken,
      hpages, hnew]
  · rw [Function.update_of_ne heq, Function.update_of_ne heq]
    exact h.taken r p

theorem step (range : Ranged img) (h : TableInv img s pages trees)
    (hstep : TableStep img s s') : ∃ pages' trees', TableInv img s' pages' trees' := by
  cases hstep with
  | owner hstep =>
      obtain ⟨pages', h'⟩ := h.toVmInv.owner range hstep
      exact ⟨pages', trees, h', h.taken⟩
  | create hexec =>
      obtain ⟨rest, rfl, rfl, rfl⟩ := h.exec_create hexec
      have h' := h.toVmInv.create range
      have hpages : s.vm.memory.freelist :: rest = [s.vm.memory.freelist] ++ rest := rfl
      refine ⟨rest, _, h', h.take hpages h'.owned.free ?_⟩
      intro p
      rw [Ownership.owns_rootOnly, h.dead h.head_new]
      simp [Radix.Owns]
  | @map root va pa perm map result m args hexec =>
      rcases h.exec_map range args with ⟨m', nodes', pages', hexec', hr⟩ | ⟨hexec', -⟩
      · rw [hexec'] at hexec
        cases hexec
        obtain ⟨new, hpages, howns⟩ := hr.taken
        exact ⟨_, _, h.rewrites range args.table args.va_aligned args.va_lt
          ⟨args.pa_aligned, args.pa_lt, args.perm_ok⟩ hr, h.take hpages hr.free howns⟩
      · rw [hexec'] at hexec
        cases hexec
  | @unmap root va map m args hexec =>
      obtain ⟨m', hexec', hr⟩ := h.exec_unmap range args
      rw [hexec'] at hexec
      cases hexec
      have htarget : Target none := trivial
      obtain ⟨new, hpages, howns⟩ := hr.taken
      exact ⟨_, _, h.rewrites range args.table args.va_aligned args.va_lt htarget hr,
        h.take hpages hr.free howns⟩

theorem run (range : Ranged img) (h : TableInv img s pages trees)
    (hrun : ReflTransGen (TableStep img) s s') :
    ∃ pages' trees', TableInv img s' pages' trees' := by
  induction hrun with
  | refl => exact ⟨pages, trees, h⟩
  | tail _ hstep ih =>
      obtain ⟨pages', trees', h'⟩ := ih
      exact h'.step range hstep

end TableInv

/-! ## A table together with its leaves -/

/-- The tables of a page table, and the page of each valid level-0 entry below
them. -/
def withLeaves (m : Memory) (nodes : Tables) : Tables := fun path =>
  if path.length = 3 then
    if Radix.entry sv39 m.page nodes path &&& pteV = 0 then none
    else some (pte2pa (Radix.entry sv39 m.page nodes path))
  else nodes path

/-- The pages a table maps are pages of one owner, each mapped once. -/
structure OwnLeaves (s : VmState) (map : PageMap) : Prop where
  distinct : ∀ {va va' pa perm perm'}, map va = some (pa, perm) →
    map va' = some (pa, perm') → va = va'
  allocated : ∀ {va pa perm}, map va = some (pa, perm) → pa ∈ s.outstanding

section Leaves

variable {img : Image} {s : VmState} {pages : List Word} {trees : Word → Tables}
  {root q : Word} {map : PageMap} {path : List (Fin 512)}

theorem withLeaves_table {m : Memory} {nodes : Tables} (hlen : path.length ≠ 3) :
    withLeaves m nodes path = nodes path :=
  if_neg hlen

theorem VmInv.leaf (h : VmInv img s pages trees) (hmap : s.maps root = some map)
    (hlen : path.length = 3) (hq : withLeaves s.memory (trees root) path = some q) :
    ∃ va perm, path = key va ∧ map va = some (q, perm) ∧
      Radix.entry sv39 s.memory.page (trees root) path = leafPte q perm := by
  obtain ⟨va, hva, hmax, rfl⟩ := exists_key hlen
  have hentry : Radix.entry sv39 s.memory.page (trees root) (key va) =
      entryFor (map va) := h.entry hmap hva hmax
  have htarget : Target (map va) := h.target hmap
  rw [withLeaves, if_pos hlen, hentry] at hq
  cases hpair : map va with
  | none => simp [hpair, entryFor] at hq
  | some pair =>
      obtain ⟨pa, perm⟩ := pair
      rw [hpair] at hq htarget hentry
      obtain ⟨hpa, hlt, hperm⟩ := htarget
      have hvalid : ¬ leafPte pa perm &&& pteV = 0 := leafPte_valid _ _
      rw [entryFor, if_neg hvalid, leafPte_pa hperm hpa hlt] at hq
      cases hq
      exact ⟨va, perm, rfl, hpair, hentry⟩

theorem VmInv.leaf_mapped (h : VmInv img s pages trees)
    (hmap : s.maps root = some map) :
    (∃ path, path.length = 3 ∧ withLeaves s.memory (trees root) path = some q) ↔
      ∃ va perm, map va = some (q, perm) := by
  constructor
  · rintro ⟨path, hlen, hq⟩
    obtain ⟨va, perm, -, hpair, -⟩ := h.leaf hmap hlen hq
    exact ⟨va, perm, hpair⟩
  · rintro ⟨va, perm, hpair⟩
    obtain ⟨hva, hmax⟩ := h.domain hmap (by rw [hpair]; simp)
    have htarget : Target (map va) := h.target hmap
    have hentry : Radix.entry sv39 s.memory.page (trees root) (key va) =
        entryFor (map va) := h.entry hmap hva (lt_maxVa hmax)
    rw [hpair] at htarget hentry
    obtain ⟨hpa, hlt, hperm⟩ := htarget
    have hvalid : ¬ leafPte q perm &&& pteV = 0#64 := leafPte_valid _ _
    refine ⟨key va, key_length va, ?_⟩
    rw [withLeaves, if_pos (key_length va), hentry]
    simp [entryFor, hvalid, leafPte_pa hperm hpa hlt]

theorem VmInv.owns_withLeaves (h : VmInv img s pages trees)
    (hmap : s.maps root = some map) :
    Radix.Owns (withLeaves s.memory (trees root)) q ↔
      Radix.Owns (trees root) q ∨ ∃ va perm, map va = some (q, perm) := by
  rw [← h.leaf_mapped hmap]
  constructor
  · rintro ⟨path, hq⟩
    by_cases hlen : path.length = 3
    · exact .inr ⟨path, hlen, hq⟩
    · rw [withLeaves_table hlen] at hq
      exact .inl ⟨path, hq⟩
  · rintro (⟨path, hq⟩ | ⟨path, -, hq⟩)
    · have hle := (h.owned.tree root).bounded hq
      exact ⟨path, (withLeaves_table (by omega)).trans hq⟩
    · exact ⟨path, hq⟩

theorem VmInv.teardown (h : VmInv img s pages trees) (hmap : s.maps root = some map)
    (hleaves : OwnLeaves s map) :
    Teardown s.memory.page (withLeaves s.memory (trees root)) := by
  have htree := h.owned.tree root
  -- a leaf is with its owner, so it is no table
  have hmixed : ∀ {path path' p}, path.length = 3 → path'.length ≠ 3 →
      withLeaves s.memory (trees root) path = some p →
      withLeaves s.memory (trees root) path' = some p → False := by
    intro path path' p hlen hlen' hp hp'
    obtain ⟨va, perm, -, hpair, -⟩ := h.leaf hmap hlen hp
    rw [withLeaves_table hlen'] at hp'
    exact h.owned.others_trees (hleaves.allocated hpair) ⟨path', hp'⟩
  have hlast : ∀ {path p} (i : Fin 512), trees root path = some p →
      Radix.entry sv39 s.memory.page (trees root) (i :: path) = s.memory.page p i :=
    fun i hp => Radix.entry_of_node hp i
  refine ⟨fun {path path' p} hp hp' => ?_, fun {i path q} hq => ?_,
    fun {path p} hp => ?_, fun {path p} hp hlen i hnone => ?_,
    fun {path p q} hp hlen i hq => ?_⟩
  · by_cases hlen : path.length = 3 <;> by_cases hlen' : path'.length = 3
    · obtain ⟨va, perm, rfl, hpair, -⟩ := h.leaf hmap hlen hp
      obtain ⟨va', perm', rfl, hpair', -⟩ := h.leaf hmap hlen' hp'
      rw [hleaves.distinct hpair hpair']
    · exact (hmixed hlen hlen' hp hp').elim
    · exact (hmixed hlen' hlen hp' hp).elim
    · rw [withLeaves_table hlen] at hp
      rw [withLeaves_table hlen'] at hp'
      exact htree.injective hp hp'
  · by_cases hlen : (i :: path).length = 3
    · have hlen' : path.length ≠ 3 := by
        simp only [List.length_cons] at hlen
        omega
      rw [withLeaves_table hlen']
      cases hnode : trees root path with
      | some p => exact ⟨p, rfl⟩
      | none =>
          rw [withLeaves, if_pos hlen, Radix.entry_of_none hnode] at hq
          simp [sv39] at hq
    · rw [withLeaves_table hlen] at hq
      have hle := htree.bounded hq
      simp only [List.length_cons] at hle
      rw [withLeaves_table (by omega)]
      exact htree.parent hq
  · by_cases hlen : path.length = 3
    · exact hlen.le
    · rw [withLeaves_table hlen] at hp
      exact Nat.le_succ_of_le (htree.bounded hp)
  · rw [withLeaves_table (by omega)] at hp
    by_cases hinner : path.length < 2
    · have hvalid := htree.inner_valid hp hinner i
      rw [withLeaves_table (by simp only [List.length_cons]; omega)] at hnone
      simpa [hnone, sv39] using hvalid
    · rw [withLeaves, if_pos (by simp only [List.length_cons]; omega), hlast i hp] at hnone
      by_contra hvalid
      rw [if_neg hvalid] at hnone
      cases hnone
  · rw [withLeaves_table (by omega)] at hp
    by_cases hinner : path.length < 2
    · rw [withLeaves_table (by simp only [List.length_cons]; omega)] at hq
      exact (Teardown.present_table htree hp hinner hq)
    · have hlen' : (i :: path).length = 3 := by
        simp only [List.length_cons]
        omega
      obtain ⟨va, perm, -, hpair, hentry⟩ := h.leaf hmap hlen' hq
      have htarget : Target (map va) := h.target hmap
      rw [hpair] at htarget
      obtain ⟨hpa, hlt, hperm⟩ := htarget
      rw [hlast i hp] at hentry
      rw [hentry]
      exact ⟨leafPte_valid q perm, leafPte_pa hperm hpa hlt,
        iff_of_false (leafPte_rwx hperm.2) hinner⟩

end Leaves

/-! ## The result -/

/-- `destroy_pagetable`, called on any table in any state of a run, gives back the
tables taken for it and the pages it still maps. -/
def TableDestruction (img : Image) : Prop :=
  ∀ m₀ : Memory, m₀.freelist = 0 →
    ∃ m₁, exec (pmmInit img) m₀ = .ok ((), m₁) ∧
      ∀ s, ReflTransGen (TableStep img) ⟨⟨m₁, ∅, fun _ => none⟩, fun _ => ∅⟩ s →
        ∀ root map, s.vm.maps root = some map → OwnLeaves s.vm map →
          ∃ m pages pages',
            exec (destroyPagetable img root) s.vm.memory = .ok ((), m) ∧
            Chain s.vm.memory.word 0 s.vm.memory.freelist pages ∧
            Chain m.word 0 m.freelist pages' ∧ pages'.Nodup ∧
            root ∈ s.taken root ∧
            (∀ q, q ∈ s.taken root → q ∉ pages ∧ ¬ ∃ va perm, map va = some (q, perm)) ∧
            (∀ va q perm, map va = some (q, perm) → q ∉ pages) ∧
            (∀ q, q ∈ pages' ↔
              q ∈ s.taken root ∨ (∃ va perm, map va = some (q, perm)) ∨ q ∈ pages) ∧
            (∀ a, (∀ q, q ∈ s.taken root ∨ (∃ va perm, map va = some (q, perm)) →
              ¬ InPage q a) → m.word a = s.vm.memory.word a) ∧
            ∀ root' map', s.vm.maps root' = some map' → root' ≠ root →
              Agrees m root' map' ∧
                ∀ va, entryAt m root' va = entryAt s.vm.memory root' va

/-- A table whose pages kept their words still is what it was. -/
theorem Agrees.frame {m m' : Memory} {root : Word} {map : PageMap}
    (h : Agrees m root map) {nodes : Tables} (htree : Radix sv39 2 m.page nodes)
    (hroot : nodes [] = some root)
    (hsame : ∀ q, Radix.Owns nodes q → ∀ i, m'.page q i = m.page q i) :
    Agrees m' root map ∧ ∀ va, entryAt m' root va = entryAt m root va := by
  have htree' := htree.frame hsame
  have hentry : ∀ va, pteOf m' nodes va = pteOf m nodes va := fun va =>
    Radix.entry_frame hsame (key va)
  refine ⟨fun va hva => ?_, fun va => ?_⟩
  · obtain ⟨pte, hexec, hfound⟩ := h va hva
    rw [exec_walkLookup htree hroot] at hexec
    cases hexec
    refine ⟨_, exec_walkLookup htree' hroot va, ?_⟩
    rcases pteAddressOf_spec htree va with ⟨hzero, -⟩ | ⟨hne, hword⟩
    · rw [hzero] at hfound ⊢
      refine ⟨by simpa using hfound.1, fun pa perm hsome => ?_⟩
      have hnone := hfound.1.mpr (by rw [hsome]; simp)
      exact absurd rfl hnone.1
    · have hword' := ((pteAddressOf_spec htree' va).resolve_left fun hz => hne hz.1).2
      rwa [hword', hentry, ← hword]
  · rw [entryAt_eq htree' hroot, entryAt_eq htree hroot, hentry]

theorem table_destruction {img : Image} (range : Ranged img) : TableDestruction img := by
  intro m₀ hzero
  obtain ⟨m₁, pages₁, hexec, hlist, hall⟩ :=
    pmmInit_exec range.ne_zero range.below hzero
  refine ⟨m₁, hexec, fun s hrun root map hmap hleaves => ?_⟩
  have hinit : TableInv img ⟨⟨m₁, ∅, fun _ => none⟩, fun _ => ∅⟩ pages₁ fun _ _ => none :=
    ⟨VmInv.init hlist hall, by simp [Radix.Owns]⟩
  obtain ⟨pages, trees, h⟩ := hinit.run range hrun
  have hroot := h.root hmap
  have howns : ∀ q, Radix.Owns (withLeaves s.vm.memory (trees root)) q ↔
      q ∈ s.taken root ∨ ∃ va perm, map va = some (q, perm) := by
    intro q
    rw [h.owns_withLeaves hmap, h.taken]
  have hgone : ∀ q, q ∈ s.taken root ∨ (∃ va perm, map va = some (q, perm)) →
      Managed img q ∧ q ∉ pages := by
    rintro q (hq | ⟨va, perm, hq⟩)
    · rw [h.taken] at hq
      exact ⟨h.owned.managed_tree hq, h.owned.trees_free hq⟩
    · have hout := hleaves.allocated hq
      exact ⟨h.owned.managed_other hout, h.owned.others_free hout⟩
  obtain ⟨m, pages', hdestroy, hfrees⟩ := exec_destroyPagetable range
    (h.teardown hmap hleaves) (fun path q hq => (hgone q ((howns q).mp ⟨path, hq⟩)).1)
    ((withLeaves_table (by simp)).trans hroot) (fun _ _ _ _ _ => rfl) h.owned.free
    fun q hq => (hgone q ((howns q).mp hq)).2
  refine ⟨m, pages, pages', hdestroy, h.owned.free.chain, hfrees.free.chain,
    hfrees.free.nodup, (h.taken root root).mpr ⟨[], hroot⟩, fun q hq => ?_,
    fun va q perm hq => ?_, fun q => ?_, fun a ha => ?_, fun root' map' hmap' hne => ?_⟩
  · refine ⟨(hgone q (.inl hq)).2, ?_⟩
    rintro ⟨va, perm, hpair⟩
    exact h.owned.others_trees (hleaves.allocated hpair) ((h.taken root q).mp hq)
  · exact (hgone q (.inr ⟨va, perm, hq⟩)).2
  · rw [hfrees.mem, howns, or_assoc]
  · exact hfrees.frame a fun q hq => ha q ((howns q).mp hq)
  · refine (h.agrees hmap').frame (h.owned.tree root') (h.root hmap') fun q hq i => ?_
    refine hfrees.page_same (fun p hp => (hgone p ((howns p).mp hp)).1.aligned)
      (h.owned.managed_tree hq).aligned (fun hown => ?_) i
    rcases (howns q).mp hown with htaken | ⟨va, perm, hpair⟩
    · exact hne (h.owned.trees_apart hq ((h.taken root q).mp htaken))
    · exact h.owned.others_trees (hleaves.allocated hpair) hq

theorem table_destruction_sample : TableDestruction sampleImage :=
  table_destruction ⟨by decide, by decide⟩

end Xv6Kernel.Mm
