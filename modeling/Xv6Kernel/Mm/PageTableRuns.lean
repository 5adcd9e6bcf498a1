import Xv6Kernel.Mm.Ownership

/-!
# Runs of the page-table operations

Page tables made by `create_pagetable` are mapped and unmapped in any order, next
to owners of pages that allocate, free and write.  Each table stays the partial
map that the calls made so far describe.
-/

namespace Xv6Kernel.Mm

open Xv6Kernel.Foundation Relation

/-- What a page table is for: page addresses to physical addresses with
permissions. -/
abbrev PageMap := Word → Option (Word × Word)

structure VmState where
  memory : Memory
  outstanding : Finset Word
  /-- The page tables made so far, by their root. -/
  maps : Word → Option PageMap

/-- The arguments `map_page` is called with. -/
structure MapArgs (s : VmState) (root va pa perm : Word) (map : PageMap) :
    Prop where
  table : s.maps root = some map
  va_aligned : Aligned va
  va_lt : va < maxVa
  pa_aligned : Aligned pa
  pa_lt : pa.toNat < 2 ^ 56
  perm_ok : Perm perm
  unmapped : map va = none

structure UnmapArgs (s : VmState) (root va : Word) (map : PageMap) : Prop where
  table : s.maps root = some map
  va_aligned : Aligned va
  va_lt : va < maxVa
  mapped : map va ≠ none

inductive VmStep (img : Image) : VmState → VmState → Prop where
  | owner {s : VmState} {a : AllocState}
      (hstep : AllocStep img ⟨s.memory, s.outstanding⟩ a) :
      VmStep img s ⟨a.memory, a.outstanding, s.maps⟩
  | create {s : VmState} {root : Word} {m : Memory}
      (hexec : exec createPagetable s.memory = .ok (root, m)) :
      VmStep img s
        ⟨m, s.outstanding, Function.update s.maps root (some fun _ => none)⟩
  | map {s : VmState} {root va pa perm : Word} {map : PageMap} {result : Int}
      {m : Memory} (args : MapArgs s root va pa perm map)
      (hexec : exec (mapPage root va pa perm) s.memory = .ok (result, m)) :
      VmStep img s
        ⟨m, s.outstanding, Function.update s.maps root
          (some (Function.update map va (some (pa, perm))))⟩
  | unmap {s : VmState} {root va : Word} {map : PageMap} {m : Memory}
      (args : UnmapArgs s root va map)
      (hexec : exec (unmapPage root va) s.memory = .ok ((), m)) :
      VmStep img s
        ⟨m, s.outstanding, Function.update s.maps root
          (some (Function.update map va none))⟩

/-! ## The invariant -/

/-- The entry of a page that maps as `target` says. -/
def entryFor : Option (Word × Word) → Word
  | none => 0
  | some (pa, perm) => leafPte pa perm

/-- Targets as `map_page` is given them. -/
def Target : Option (Word × Word) → Prop
  | none => True
  | some (pa, perm) => Aligned pa ∧ pa.toNat < 2 ^ 56 ∧ Perm perm

structure VmInv (img : Image) (s : VmState) (pages : List Word)
    (trees : Word → Tables) : Prop where
  owned : Ownership img s.memory pages trees fun p => p ∈ s.outstanding
  dead : ∀ {root}, s.maps root = none → trees root = fun _ => none
  root : ∀ {root map}, s.maps root = some map → trees root [] = some root
  target : ∀ {root map va}, s.maps root = some map → Target (map va)
  domain : ∀ {root map va}, s.maps root = some map → map va ≠ none →
    Aligned va ∧ va < maxVa
  entry : ∀ {root map va}, s.maps root = some map → Aligned va →
    va.toNat < 2 ^ 39 → pteOf s.memory (trees root) va = entryFor (map va)

namespace VmInv

variable {img : Image} {s s' : VmState} {pages : List Word} {trees : Word → Tables}

theorem entryFor_valid {target : Option (Word × Word)} (h : Target target) :
    entryFor target &&& pteV ≠ 0 ↔ target ≠ none := by
  cases target with
  | none => simp [entryFor]
  | some pair => simpa [entryFor] using leafPte_valid _ _

theorem rewrites (range : Ranged img) (h : VmInv img s pages trees)
    {root va : Word} {map : PageMap} {target : Option (Word × Word)} {m : Memory}
    {nodes' : Tables} {pages' : List Word} (hmap : s.maps root = some map)
    (hva : Aligned va) (hmax : va < maxVa) (htarget : Target target)
    (hrewrites : Rewrites va (entryFor target) s.memory m (trees root) nodes'
      pages pages') :
    VmInv img ⟨m, s.outstanding, Function.update s.maps root
        (some (Function.update map va target))⟩ pages'
      (Function.update trees root nodes') := by
  refine ⟨h.owned.rewrites range hrewrites, fun {r} hnone => ?_, fun {r map'} hsome => ?_,
    fun {r map' va'} hsome => ?_, fun {r map' va'} hsome hmapped => ?_,
    fun {r map' va'} hsome hva' hmax' => ?_⟩ <;>
    simp only [] at * <;> by_cases heq : r = root
  · simp [heq] at hnone
  · rw [Function.update_of_ne heq] at hnone ⊢
    exact h.dead hnone
  · subst heq
    rw [Function.update_self]
    exact hrewrites.kept (h.root hmap)
  · rw [Function.update_of_ne heq] at hsome ⊢
    exact h.root hsome
  · subst heq
    simp only [Function.update_self, Option.some.injEq] at hsome
    subst hsome
    by_cases hhere : va' = va
    · subst hhere
      simpa using htarget
    · rw [Function.update_of_ne hhere]
      exact h.target hmap
  · rw [Function.update_of_ne heq] at hsome
    exact h.target hsome
  · subst heq
    simp only [Function.update_self, Option.some.injEq] at hsome
    subst hsome
    by_cases hhere : va' = va
    · exact hhere ▸ ⟨hva, hmax⟩
    · rw [Function.update_of_ne hhere] at hmapped
      exact h.domain hmap hmapped
  · rw [Function.update_of_ne heq] at hsome
    exact h.domain hsome hmapped
  · subst heq
    simp only [Function.update_self, Option.some.injEq] at hsome ⊢
    subst hsome
    have hentry := hrewrites.entries (key va') rfl
    by_cases hhere : va' = va
    · subst hhere
      rw [if_pos rfl] at hentry
      rw [Function.update_self]
      exact hentry
    · have hkey : key va' ≠ key va := fun hkey =>
        hhere (key_inj hva' hva hmax' (lt_maxVa hmax) hkey)
      rw [if_neg hkey] at hentry
      rw [Function.update_of_ne hhere, pteOf, hentry]
      exact h.entry hmap hva' hmax'
  · rw [Function.update_of_ne heq] at hsome
    rw [h.owned.pteOf_update (fun q hq hfree hown a ha =>
      h.owned.rewrites_same hrewrites hq hfree hown ha) heq]
    exact h.entry hsome hva' hmax'

theorem exec_map (range : Ranged img) (h : VmInv img s pages trees)
    {root va pa perm : Word} {map : PageMap} (args : MapArgs s root va pa perm map) :
    (∃ m nodes' pages', exec (mapPage root va pa perm) s.memory = .ok (0, m) ∧
      Rewrites va (entryFor (some (pa, perm))) s.memory m (trees root) nodes'
        pages pages') ∨
      (exec (mapPage root va pa perm) s.memory = .error (.panic "alloc_page") ∧
        pages.length < 2) := by
  have hunmapped : pteOf s.memory (trees root) va &&& pteV = 0 := by
    rw [h.entry args.table args.va_aligned (lt_maxVa args.va_lt), args.unmapped]
    simp [entryFor]
  rcases exec_mapPage (h.owned.apart range root) (h.root args.table) args.va_aligned args.pa_aligned
    hunmapped with ⟨m, nodes', pages', hexec, -, hr⟩ | hempty
  · exact .inl ⟨m, nodes', pages', hexec, hr⟩
  · have hle := missing_le (trees root) va 2
    exact .inr ⟨hempty.1, by omega⟩

theorem exec_unmap (range : Ranged img) (h : VmInv img s pages trees)
    {root va : Word} {map : PageMap} (args : UnmapArgs s root va map) :
    ∃ m, exec (unmapPage root va) s.memory = .ok ((), m) ∧
      Rewrites va (entryFor none) s.memory m (trees root) (trees root)
        pages pages := by
  refine exec_unmapPage (h.owned.apart range root) (h.root args.table) ?_
  rw [h.entry args.table args.va_aligned (lt_maxVa args.va_lt)]
  exact (entryFor_valid (h.target args.table)).mpr args.mapped

/-- The next page on the free list is not the root of a table. -/
theorem head_new (h : VmInv img s (s.memory.freelist :: pages) trees) :
    s.maps s.memory.freelist = none := by
  cases hmap : s.maps s.memory.freelist with
  | none => rfl
  | some map =>
      exact absurd (List.mem_cons_self ..) (h.owned.trees_free ⟨[], h.root hmap⟩)

theorem create (range : Ranged img)
    (h : VmInv img s (s.memory.freelist :: pages) trees) :
    VmInv img ⟨Ownership.zeroed s.memory, s.outstanding,
        Function.update s.maps s.memory.freelist (some fun _ => none)⟩ pages
      (Function.update trees s.memory.freelist
        (Ownership.rootOnly s.memory.freelist)) := by
  refine ⟨h.owned.create range (h.dead h.head_new), fun {r} hnone => ?_,
    fun {r map'} hsome => ?_, fun {r map' va'} hsome => ?_,
    fun {r map' va'} hsome hmapped => ?_, fun {r map' va'} hsome hva' hmax' => ?_⟩ <;>
    simp only [] at * <;> by_cases heq : r = s.memory.freelist
  · simp [heq] at hnone
  · rw [Function.update_of_ne heq] at hnone ⊢
    exact h.dead hnone
  · subst heq
    simp [Ownership.rootOnly]
  · rw [Function.update_of_ne heq] at hsome ⊢
    exact h.root hsome
  · simp only [heq, Function.update_self, Option.some.injEq] at hsome
    subst hsome
    trivial
  · rw [Function.update_of_ne heq] at hsome
    exact h.target hsome
  · simp only [heq, Function.update_self, Option.some.injEq] at hsome
    subst hsome
    exact absurd rfl hmapped
  · rw [Function.update_of_ne heq] at hsome
    exact h.domain hsome hmapped
  · simp only [heq, Function.update_self, Option.some.injEq] at hsome ⊢
    subst hsome
    exact Ownership.pteOf_rootOnly ..
  · rw [Function.update_of_ne heq] at hsome
    rw [h.owned.pteOf_update (fun q hq hfree _ a ha =>
      h.owned.zeroed_same hq hfree ha) heq]
    exact h.entry hsome hva' hmax'

/-- The owners of pages do not disturb the tables. -/
theorem owner (range : Ranged img) (h : VmInv img s pages trees) {a : AllocState}
    (hstep : AllocStep img ⟨s.memory, s.outstanding⟩ a) :
    ∃ pages', VmInv img ⟨a.memory, a.outstanding, s.maps⟩ pages' trees := by
  cases hstep with
  | alloc hfree hexec =>
      obtain ⟨-, rfl, rfl⟩ := exec_allocPage_ok hexec
      obtain ⟨rest, rfl⟩ := h.owned.free.exists_cons hfree
      refine ⟨rest, ?_, h.dead, h.root, h.target, h.domain, fun hsome hva hmax => ?_⟩
      · have hpop := h.owned.pop
        simpa [or_comm, Finset.mem_insert] using hpop
      · rw [h.owned.pteOf_pop]
        exact h.entry hsome hva hmax
  | @free p m hp hexec =>
      rw [exec_freePage_managed range.below (h.owned.managed_other hp)] at hexec
      cases hexec
      refine ⟨p :: pages, ?_, h.dead, h.root, h.target, h.domain,
        fun hsome hva hmax => ?_⟩
      · have hpush := h.owned.push range hp
        simpa [and_comm, Finset.mem_erase] using hpush
      · rw [h.owned.pteOf_push hp]
        exact h.entry hsome hva hmax
  | @write p m hp hhead hsame =>
      have hsame' : ∀ q, Managed img q → ¬ q ∈ s.outstanding → ∀ a, InPage q a →
          m.word a = s.memory.word a := by
        intro q hq hother a ha
        refine hsame a fun hin => hother ?_
        rwa [inPage_unique hq.aligned (h.owned.managed_other hp).aligned ha hin]
      refine ⟨pages, h.owned.write hhead hsame', h.dead, h.root, h.target, h.domain,
        fun hsome hva hmax => ?_⟩
      rw [h.owned.pteOf_write hsame']
      exact h.entry hsome hva hmax

theorem exec_create (h : VmInv img s pages trees)
    {root : Word} {m : Memory}
    (hexec : exec createPagetable s.memory = .ok (root, m)) :
    ∃ rest, pages = root :: rest ∧ root = s.memory.freelist ∧
      m = Ownership.zeroed s.memory := by
  by_cases hfree : s.memory.freelist = 0
  · simp [createPagetable, exec_allocPage_empty hfree] at hexec
  · rw [Ownership.exec_createPagetable hfree] at hexec
    cases hexec
    obtain ⟨rest, hpages⟩ := h.owned.free.exists_cons hfree
    exact ⟨rest, hpages, rfl, rfl⟩

theorem step (range : Ranged img) (h : VmInv img s pages trees)
    (hstep : VmStep img s s') : ∃ pages' trees', VmInv img s' pages' trees' := by
  cases hstep with
  | @map root va pa perm map result m args hexec =>
      rcases h.exec_map range args with ⟨m', nodes', pages', hexec', hr⟩ | ⟨hexec', -⟩
      · rw [hexec'] at hexec
        cases hexec
        exact ⟨_, _, h.rewrites range args.table args.va_aligned args.va_lt
          ⟨args.pa_aligned, args.pa_lt, args.perm_ok⟩ hr⟩
      · rw [hexec'] at hexec
        cases hexec
  | @unmap root va map m args hexec =>
      obtain ⟨m', hexec', hr⟩ := h.exec_unmap range args
      rw [hexec'] at hexec
      cases hexec
      have htarget : Target none := trivial
      exact ⟨_, _, h.rewrites range args.table args.va_aligned args.va_lt htarget hr⟩
  | create hexec =>
      obtain ⟨rest, rfl, rfl, rfl⟩ := h.exec_create hexec
      exact ⟨rest, _, h.create range⟩
  | owner hstep =>
      obtain ⟨pages', h'⟩ := h.owner range hstep
      exact ⟨pages', trees, h'⟩

theorem run (range : Ranged img) (h : VmInv img s pages trees)
    (hrun : ReflTransGen (VmStep img) s s') :
    ∃ pages' trees', VmInv img s' pages' trees' := by
  induction hrun with
  | refl => exact ⟨pages, trees, h⟩
  | tail _ hstep ih =>
      obtain ⟨pages', trees', h'⟩ := ih
      exact h'.step range hstep

theorem init {m : Memory} (hfree : FreeList m pages)
    (hall : ∀ q, q ∈ pages ↔ Managed img q) :
    VmInv img ⟨m, ∅, fun _ => none⟩ pages fun _ _ => none where
  owned := by simpa using Ownership.init hfree hall
  dead _ := rfl
  root := nofun
  target := nofun
  domain := nofun
  entry := nofun

end VmInv

/-! ## The refinement -/

/-- `walk_lookup` sees the table as the map describes it. -/
def Agrees (m : Memory) (root : Word) (map : PageMap) : Prop :=
  ∀ va, va < maxVa → ∃ pte, exec (walkLookup root va) m = .ok (pte, m) ∧
    (pte ≠ 0 ∧ m.word pte &&& pteV ≠ 0 ↔ map (pgRoundDown va) ≠ none) ∧
    ∀ pa perm, map (pgRoundDown va) = some (pa, perm) →
      pte2pa (m.word pte) = pa ∧ pteFlags (m.word pte) = perm ||| pteV

/-- The entry `walk_lookup` leads to; 0 where it answers null. -/
def entryAt (m : Memory) (root va : Word) : Word :=
  match exec (walkLookup root va) m with
  | .ok (pte, _) => if pte = 0 then 0 else m.word pte
  | .error _ => 0

/-- Of the table at `root` only the entry of `va` may have changed, and of other
tables not even where their entries are. -/
structure OthersKept (s : VmState) (m : Memory) (root va : Word) : Prop where
  entries : ∀ va', va' < maxVa → pgRoundDown va' ≠ va →
    entryAt m root va' = entryAt s.memory root va'
  tables : ∀ root' map, s.maps root' = some map → root' ≠ root → ∀ va',
    ∃ pte, exec (walkLookup root' va') s.memory = .ok (pte, s.memory) ∧
      exec (walkLookup root' va') m = .ok (pte, m) ∧
      entryAt m root' va' = entryAt s.memory root' va'

theorem entryAt_eq {m : Memory} {nodes : Tables} (h : Radix sv39 2 m.page nodes)
    {root : Word} (hroot : nodes [] = some root) (va : Word) :
    entryAt m root va = pteOf m nodes va := by
  unfold entryAt
  rw [exec_walkLookup h hroot]
  rcases pteAddressOf_spec h va with ⟨hzero, hpte⟩ | ⟨hne, hword⟩
  · simp [hzero, hpte]
  · simp only
    rw [if_neg hne, hword]

theorem key_pgRoundDown (va : Word) : key (pgRoundDown va) = key va := by
  have hvpn : ∀ level, vpn (pgRoundDown va) level = vpn va level := by
    intro level
    apply Fin.ext
    simp only [vpn, pgRoundDown_toNat, Nat.pow_add, show 2 ^ 12 = 4096 by norm_num]
    rw [← Nat.div_div_eq_div_mul, ← Nat.div_div_eq_div_mul,
      Nat.mul_div_cancel _ (by norm_num)]
  simp only [key, tablePath, hvpn]

theorem pgRoundDown_lt {va : Word} (h : va < maxVa) : pgRoundDown va < maxVa := by
  rw [BitVec.lt_def] at h ⊢
  rw [pgRoundDown_toNat]
  omega

namespace VmInv

variable {img : Image} {s : VmState} {pages : List Word} {trees : Word → Tables}

theorem pteOf_eq (h : VmInv img s pages trees) {root : Word} {map : PageMap}
    (hmap : s.maps root = some map) {va : Word} (hva : va < maxVa) :
    pteOf s.memory (trees root) va = entryFor (map (pgRoundDown va)) := by
  rw [← h.entry hmap (pgRoundDown_aligned va) (lt_maxVa (pgRoundDown_lt hva)), pteOf, pteOf,
    key_pgRoundDown]

theorem agrees (h : VmInv img s pages trees) {root : Word} {map : PageMap}
    (hmap : s.maps root = some map) : Agrees s.memory root map := by
  intro va hva
  have htree := h.owned.tree root
  have htarget : Target (map (pgRoundDown va)) := h.target hmap
  have hentry := h.pteOf_eq hmap hva
  refine ⟨_, exec_walkLookup htree (h.root hmap) va, ?_⟩
  rcases pteAddressOf_spec htree va with ⟨hzero, hpte⟩ | ⟨hne, hword⟩
  · have hnone : map (pgRoundDown va) = none := by
      have hvalid := entryFor_valid htarget
      rw [← hentry, hpte] at hvalid
      simpa using hvalid
    simp [hzero, hnone]
  · rw [hword, hentry]
    refine ⟨?_, fun pa perm hsome => ?_⟩
    · exact (and_iff_right hne).trans (entryFor_valid htarget)
    · rw [hsome] at htarget ⊢
      obtain ⟨hpa, hlt, hperm⟩ := htarget
      exact ⟨leafPte_pa hperm hpa hlt, leafPte_flags hperm⟩

theorem othersKept (h : VmInv img s pages trees) {root va pte : Word}
    {map : PageMap} {m : Memory} {nodes' : Tables} {pages' : List Word}
    (hmap : s.maps root = some map) (hva : Aligned va) (hmax : va < maxVa)
    (hrewrites : Rewrites va pte s.memory m (trees root) nodes' pages pages') :
    OthersKept s m root va := by
  constructor
  · intro va' hva' hne
    have hkey : key va' ≠ key va := by
      rw [← key_pgRoundDown va']
      exact fun heq => hne (key_inj (pgRoundDown_aligned va') hva
        (lt_maxVa (pgRoundDown_lt hva')) (lt_maxVa hmax) heq)
    rw [entryAt_eq hrewrites.tree (hrewrites.kept (h.root hmap)),
      entryAt_eq (h.owned.tree root) (h.root hmap), pteOf, pteOf,
      hrewrites.entries _ rfl, if_neg hkey]
  · intro root' map' hmap' hne va'
    have htree := (h.owned.tree root').frame fun q hq i =>
      h.owned.rewrites_same hrewrites (h.owned.managed_tree hq)
        (h.owned.trees_free hq) (fun hown => hne (h.owned.trees_apart hq hown))
        (inPage_cell (h.owned.managed_tree hq).aligned i)
    have hroot := h.root hmap'
    refine ⟨_, exec_walkLookup (h.owned.tree root') hroot va',
      exec_walkLookup htree hroot va', ?_⟩
    rw [entryAt_eq htree hroot, entryAt_eq (h.owned.tree root') hroot]
    have hsame : pteOf m (Function.update trees root nodes' root') va' =
        pteOf s.memory (trees root') va' :=
      h.owned.pteOf_update (fun q hq hfree hown a ha =>
        h.owned.rewrites_same hrewrites hq hfree hown ha) hne va'
    rwa [Function.update_of_ne hne] at hsame

end VmInv

/-- Page tables over the allocator refine partial maps: in every state reached,
all tables agree with their maps, and the next `map_page` or `unmap_page` works
unless fewer than two pages are free. -/
def TableRefinement (img : Image) : Prop :=
  ∀ m₀ : Memory, m₀.freelist = 0 →
    ∃ m₁, exec (pmmInit img) m₀ = .ok ((), m₁) ∧
      ∀ s, ReflTransGen (VmStep img) ⟨m₁, ∅, fun _ => none⟩ s →
        (∀ root map, s.maps root = some map → Agrees s.memory root map) ∧
        (∀ root va pa perm map, MapArgs s root va pa perm map →
          (∃ m, exec (mapPage root va pa perm) s.memory = .ok (0, m) ∧
            OthersKept s m root va) ∨
          (exec (mapPage root va pa perm) s.memory =
              .error (.panic "alloc_page") ∧
            ∃ pages, Chain s.memory.word 0 s.memory.freelist pages ∧
              pages.length < 2)) ∧
        ∀ root va map, UnmapArgs s root va map →
          ∃ m, exec (unmapPage root va) s.memory = .ok ((), m) ∧
            OthersKept s m root va

theorem page_table_refinement {img : Image} (range : Ranged img) :
    TableRefinement img := by
  intro m₀ hzero
  obtain ⟨m₁, pages₁, hexec, hlist, hall⟩ :=
    pmmInit_exec range.ne_zero range.below hzero
  refine ⟨m₁, hexec, fun s hrun => ?_⟩
  obtain ⟨pages, trees, h⟩ := (VmInv.init hlist hall).run range hrun
  refine ⟨fun root map hmap => h.agrees hmap, fun root va pa perm map args => ?_,
    fun root va map args => ?_⟩
  · rcases h.exec_map range args with ⟨m, nodes', pages', hmapped, hr⟩ | ⟨hempty, hlen⟩
    · exact .inl ⟨m, hmapped,
        h.othersKept args.table args.va_aligned args.va_lt hr⟩
    · exact .inr ⟨hempty, pages, h.owned.free.chain, hlen⟩
  · obtain ⟨m, hunmapped, hr⟩ := h.exec_unmap range args
    exact ⟨m, hunmapped, h.othersKept args.table args.va_aligned args.va_lt hr⟩

theorem page_table_refinement_sample : TableRefinement sampleImage :=
  page_table_refinement ⟨by decide, by decide⟩

end Xv6Kernel.Mm
