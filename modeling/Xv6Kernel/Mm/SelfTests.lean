import Xv6Kernel.Mm.PageTableRuns

/-!
# The self-tests of the memory manager

`walk`, `test_physical_memory` and `test_pagetable`, in any state of the system and in any
order: whatever page tables and pages are in use, the tests pass exactly when enough pages
are free, and disturb none of them.
-/

namespace Xv6Kernel.Mm

open Xv6Kernel.Foundation Relation

/-! ## The programs -/

def assert (condition : Prop) [Decidable condition] : MemM Unit :=
  if condition then pure () else panic "assertion failed"

/-- `*(int*)address = value`, in the low half of a word. -/
def storeInt (address : Word) (value : BitVec 32) : MemM Unit :=
  touch fun m =>
    ((), m.store address (m.word address &&& ~~~0xFFFFFFFF ||| value.setWidth 64))

/-- `*(int*)address`. -/
def loadInt (address : Word) : MemM (BitVec 32) :=
  touch fun m => ((m.word address).setWidth 32, m)

def walk (pagetable va : Word) (alloc : Bool) : MemM Word := do
  let pte ← if alloc then walkCreate pagetable va else walkLookup pagetable va
  if pte = 0 then
    panic "walk"
  return pte

def testPhysicalMemory (img : Image) : MemM Unit := do
  let page1 ← allocPage
  let page2 ← allocPage
  assert (page1 ≠ page2)
  assert (page1 &&& 0xFFF = 0)
  storeInt page1 0x12345678
  let value ← loadInt page1
  assert (value = 0x12345678)
  freePage img page1
  let page3 ← allocPage
  freePage img page2
  freePage img page3

/-- `*pte & PTE_V`. -/
def isValid (pte : Word) : MemM Bool := do
  let entry ← load pte
  return decide (entry &&& pteV ≠ 0)

def testPagetable : MemM Unit := do
  let pt ← createPagetable
  let va : Word := 0x1000000
  let pa ← allocPage
  let result ← mapPage pt va pa (pteR ||| pteW)
  assert (result = 0)
  let pte ← walkLookup pt va
  let valid ← if pte = 0 then pure false else isValid pte
  assert (valid = true)
  assert (pte2pa (← load pte) = pa)
  assert ((← load pte) &&& pteR ≠ 0)
  assert ((← load pte) &&& pteW ≠ 0)
  assert (¬ (← load pte) &&& pteX ≠ 0)

section Programs

variable {m : Memory}

theorem exec_assert {condition : Prop} [Decidable condition] (h : condition) :
    exec (assert condition) m = .ok ((), m) := by
  rw [assert, if_pos h]
  rfl

/-- `walk` finds what `walk_lookup` finds and panics where that answers null. -/
theorem exec_walk_lookup {nodes : Tables} (tree : Radix sv39 2 m.page nodes) {pt : Word}
    (hroot : nodes [] = some pt) (va : Word) :
    exec (walk pt va false) m =
      if pteAddressOf nodes va = 0 then .error (.panic "walk")
      else .ok (pteAddressOf nodes va, m) := by
  have hlookup := exec_walkLookup tree hroot va
  by_cases hzero : pteAddressOf nodes va = 0#64
  · simp [walk, hlookup, hzero]
  · simp [walk, hlookup, hzero]

/-- Where it may allocate, only the allocator can fail. -/
theorem exec_walk_create {nodes : Tables} {pages : List Word} (apart : Apart m nodes pages)
    {pt : Word} (hroot : nodes [] = some pt) (va : Word) :
    (∃ m' nodes' pages', exec (walk pt va true) m = .ok (pteAddressOf nodes' va, m') ∧
      Rewrites va (pteOf m nodes va) m m' nodes nodes' pages pages') ∨
      exec (walk pt va true) m = .error (.panic "alloc_page") := by
  rcases exec_walkCreate apart hroot va with
    ⟨m', nodes', pages', p, hexec, hp, hrewrites⟩ | ⟨hexec, -⟩
  · have hne : ¬ cell p (vpn va 0) = 0#64 := cell_ne_zero (hrewrites.tree.table hp) _
    refine .inl ⟨m', nodes', pages', ?_, hrewrites⟩
    rw [pteAddressOf_of_node hp]
    simp [walk, hexec, hne]
  · right
    simp [walk, hexec]

theorem storeInt_loadInt (w : Word) (value : BitVec 32) :
    (w &&& ~~~0xFFFFFFFF ||| value.setWidth 64).setWidth 32 = value := by
  ext i hi
  simp

/-- What is stored at an address is read back there, and nothing else changes. -/
theorem exec_storeInt_loadInt (address : Word) (value : BitVec 32) :
    ∃ m', exec (storeInt address value) m = .ok ((), m') ∧
      exec (loadInt address) m' = .ok (value, m') ∧ m'.freelist = m.freelist ∧
      ∀ a, a ≠ address → m'.word a = m.word a := by
  refine ⟨_, exec_touch .., ?_, rfl, fun a hne => m.store_other _ hne⟩
  rw [loadInt, exec_touch]
  simp only [Memory.store_self, storeInt_loadInt]

end Programs

/-! ## `test_physical_memory` -/

theorem Aligned.offset {p : Word} (h : Aligned p) : p &&& 0xFFF = 0 := by
  apply BitVec.eq_of_toNat_eq
  have hmask : (0xFFF : Word).toNat = 2 ^ 12 - 1 := by decide
  rw [BitVec.toNat_and, hmask, Nat.and_two_pow_sub_one_eq_mod]
  exact aligned_iff.mp h

/-- Memory after the test has given `first` back, taken it again, and given both back. -/
def Memory.putBack (m : Memory) (first second : Word) : Memory :=
  ((m.push first).pop.push second).push first

namespace Ownership

variable {img : Image} {m : Memory} {first second : Word} {rest : List Word}
  {trees : Word → Tables} {others : Word → Prop}

theorem putBack (range : Ranged img) (hne : first ≠ second) (hfirst : ¬ others first)
    (hsecond : ¬ others second)
    (h : Ownership img m rest trees fun q => (others q ∨ q = first) ∨ q = second) :
    Ownership img (m.putBack first second) (first :: second :: rest) trees others := by
  have hpushed := h.push range (.inl (.inr rfl) : (others first ∨ first = first) ∨ _)
  have htaken := hpushed.pop
  have hother : ((others second ∨ second = first) ∨ second = second) ∧ second ≠ first :=
    ⟨.inr rfl, hne.symm⟩
  have hback := (htaken.push range (.inl hother)).push range ⟨.inr rfl, hne⟩
  have hothers : (fun q => (((((others q ∨ q = first) ∨ q = second) ∧ q ≠ first) ∨ q = first) ∧
      q ≠ second) ∧ q ≠ first) = others := by
    funext q
    by_cases hq₁ : q = first
    · simp [hq₁, hfirst]
    by_cases hq₂ : q = second
    · simp [hq₂, hsecond]
    simp [hq₁, hq₂]
  exact hothers ▸ hback

/-- The test puts both pages back, in the order in which it found them. -/
theorem exec_testPhysicalMemory (range : Ranged img)
    (h : Ownership img m (m.freelist :: m.pop.freelist :: rest) trees others)
    (hone : m.freelist ≠ 0) (htwo : m.pop.freelist ≠ 0) :
    ∃ m', exec (testPhysicalMemory img) m = .ok ((), m') ∧
      Ownership img m' (m.freelist :: m.pop.freelist :: rest) trees others ∧
      ∀ q, Managed img q → q ∉ m.freelist :: m.pop.freelist :: rest → ∀ a, InPage q a →
        m'.word a = m.word a := by
  have hmanaged₁ : Managed img m.freelist := h.managed_free (by simp)
  have hmanaged₂ : Managed img m.pop.freelist := h.managed_free (by simp)
  have hne : m.freelist ≠ m.pop.freelist := by
    have hnew := h.head_new
    simp only [List.mem_cons, not_or] at hnew
    exact hnew.1
  obtain ⟨m₃, hstore, hload, hfreelist, hword⟩ :=
    exec_storeInt_loadInt (m := m.pop.pop) m.freelist 0x12345678
  have hsame : ∀ q, Managed img q → ¬ ((others q ∨ q = m.freelist) ∨ q = m.pop.freelist) →
      ∀ a, InPage q a → m₃.word a = m.pop.pop.word a := by
    intro q hq hother a ha
    refine hword a ?_
    rintro rfl
    exact hother (.inl (.inr (inPage_unique hq.1 hmanaged₁.1 ha (inPage_self hmanaged₁.1))))
  have hagain : (m₃.push m.freelist).freelist ≠ 0 := hone
  refine ⟨m₃.putBack m.freelist m.pop.freelist, ?_, ?_, ?_⟩
  · unfold testPhysicalMemory
    refine exec_bind_ok.mpr ⟨_, _, exec_allocPage hone, ?_⟩
    refine exec_bind_ok.mpr ⟨_, _, exec_allocPage htwo, ?_⟩
    refine exec_bind_ok.mpr ⟨_, _, exec_assert hne, ?_⟩
    refine exec_bind_ok.mpr ⟨_, _, exec_assert hmanaged₁.1.offset, ?_⟩
    refine exec_bind_ok.mpr ⟨_, _, hstore, ?_⟩
    refine exec_bind_ok.mpr ⟨_, _, hload, ?_⟩
    refine exec_bind_ok.mpr ⟨_, _, exec_assert rfl, ?_⟩
    refine exec_bind_ok.mpr ⟨_, _, exec_freePage_managed range.below hmanaged₁, ?_⟩
    refine exec_bind_ok.mpr ⟨_, _, exec_allocPage hagain, ?_⟩
    refine exec_bind_ok.mpr ⟨_, _, exec_freePage_managed range.below hmanaged₂, ?_⟩
    exact exec_freePage_managed range.below hmanaged₁
  · exact (h.pop.pop.write hfreelist hsame).putBack range hne
      (fun hother => h.others_free hother (by simp))
      (fun hother => h.others_free hother (by simp))
  · intro q hq hother a ha
    have hout₁ : ¬ InPage m.freelist a := fun hin => hother
      (by simp [inPage_unique hq.1 hmanaged₁.1 ha hin])
    have hout₂ : ¬ InPage m.pop.freelist a := fun hin => hother
      (by simp [inPage_unique hq.1 hmanaged₂.1 ha hin])
    have hout : ¬ InPage (m₃.push m.freelist).freelist a := hout₁
    have hne' : a ≠ m.freelist := by
      rintro rfl
      exact hout₁ (inPage_self hmanaged₁.1)
    rw [Memory.putBack, Memory.push_word _ hmanaged₁.1 hout₁, Memory.push_word _ hmanaged₂.1 hout₂,
      Memory.pop_word _ hout, Memory.push_word _ hmanaged₁.1 hout₁, hword a hne',
      Memory.pop_word _ hout₂, Memory.pop_word _ hout₁]

end Ownership

/-- What a test must not disturb. -/
structure Undisturbed (s s' : VmState) : Prop where
  maps : ∀ {root map}, s.maps root = some map → s'.maps root = some map
  outstanding : s.outstanding ⊆ s'.outstanding
  same : ∀ p ∈ s.outstanding, ∀ a, InPage p a → s'.memory.word a = s.memory.word a

namespace Undisturbed

variable {s s' s'' : VmState}

theorem refl (s : VmState) : Undisturbed s s :=
  ⟨id, Finset.Subset.refl _, fun _ _ _ _ => rfl⟩

theorem trans (h : Undisturbed s s') (h' : Undisturbed s' s'') : Undisturbed s s'' where
  maps hmap := h'.maps (h.maps hmap)
  outstanding := h.outstanding.trans h'.outstanding
  same p hp a ha := (h'.same p (h.outstanding hp) a ha).trans (h.same p hp a ha)

end Undisturbed

namespace VmInv

variable {img : Image} {s : VmState} {pages : List Word} {trees : Word → Tables}

theorem pages_eq_nil (h : VmInv img s pages trees) (hzero : s.memory.freelist = 0) :
    pages = [] :=
  h.owned.free.chain.eq_nil_iff.mp hzero

/-- Nothing of a system is in the pages it has free. -/
theorem kept (h : VmInv img s pages trees) {m' : Memory}
    (howned : Ownership img m' pages trees fun p => p ∈ s.outstanding)
    (hsame : ∀ q, Managed img q → q ∉ pages → ∀ a, InPage q a →
      m'.word a = s.memory.word a) :
    VmInv img ⟨m', s.outstanding, s.maps⟩ pages trees ∧
      Undisturbed s ⟨m', s.outstanding, s.maps⟩ := by
  refine ⟨⟨howned, h.dead, h.root, h.target, h.domain, fun {root map va} hmap hva hmax => ?_⟩,
    id, Finset.Subset.refl _, fun p hp a ha => ?_⟩
  · rw [← h.entry hmap hva hmax]
    exact Radix.entry_frame (fun q hq i => hsame q (h.owned.managed_tree hq)
      (h.owned.trees_free hq) _ (inPage_cell (h.owned.managed_tree hq).aligned i)) (key va)
  · exact hsame p (h.owned.managed_other hp) (h.owned.others_free hp) a ha

/-- With two free pages the test ends with everything where it was. -/
theorem exec_testPhysicalMemory (range : Ranged img) (h : VmInv img s pages trees) :
    (2 ≤ pages.length ∧ ∃ m', exec (testPhysicalMemory img) s.memory = .ok ((), m') ∧
      VmInv img ⟨m', s.outstanding, s.maps⟩ pages trees ∧
      Undisturbed s ⟨m', s.outstanding, s.maps⟩) ∨
      (pages.length < 2 ∧
        exec (testPhysicalMemory img) s.memory = .error (.panic "alloc_page")) := by
  by_cases hone : s.memory.freelist = 0
  · have hnil := h.pages_eq_nil hone
    refine .inr ⟨by simp [hnil], ?_⟩
    simp [testPhysicalMemory, exec_allocPage_empty hone]
  obtain ⟨rest, rfl⟩ := h.owned.free.exists_cons hone
  have h₁ := h.owned.free.pop
  by_cases htwo : s.memory.pop.freelist = 0
  · have hnil := h₁.chain.eq_nil_iff.mp htwo
    refine .inr ⟨by simp [hnil], ?_⟩
    simp [testPhysicalMemory, exec_allocPage hone, exec_allocPage_empty htwo]
  obtain ⟨rest, rfl⟩ := h₁.exists_cons htwo
  obtain ⟨m', hexec, howned, hsame⟩ := h.owned.exec_testPhysicalMemory range hone htwo
  exact .inl ⟨by simp, m', hexec, h.kept howned hsame⟩

/-! ## `test_pagetable` -/

/-- `owner` where the page comes from the front of the list. -/
theorem alloc (range : Ranged img) (h : VmInv img s (s.memory.freelist :: pages) trees)
    (hfree : s.memory.freelist ≠ 0) :
    VmInv img ⟨s.memory.pop, insert s.memory.freelist s.outstanding, s.maps⟩ pages trees := by
  obtain ⟨pages', h'⟩ := h.owner range (.alloc hfree (exec_allocPage hfree))
  rwa [h'.owned.free.chain.unique h.owned.free.pop.chain] at h'

end VmInv

/-- The first page mapped in an empty page table costs two more tables. -/
theorem Rewrites.taken_two {m m' : Memory} {r va pte : Word} {nodes' : Tables}
    {pages pages' : List Word} (hapart : Apart m (Ownership.rootOnly r) pages)
    (h : Rewrites va pte m m' (Ownership.rootOnly r) nodes' pages pages')
    (hpte : pte ≠ 0) : pages' = pages.drop 2 ∧ 2 ≤ pages.length := by
  obtain ⟨new, rfl, howns⟩ := h.taken
  obtain ⟨low, hlow⟩ : ∃ p, nodes' (tablePath va 0) = some p := by
    by_contra hnone
    have hentry := h.entries (key va) rfl
    rw [if_pos rfl, key, Radix.entry_of_none (by simpa [Option.eq_none_iff_forall_ne_some]
      using hnone)] at hentry
    exact hpte hentry.symm
  obtain ⟨mid, hmid⟩ : ∃ p, nodes' (tablePath va 1) = some p := h.tree.parent hlow
  have hroot : nodes' [] = some r := h.kept (by simp [Ownership.rootOnly])
  have hne : low ≠ mid := by
    rintro rfl
    have hpath := congrArg List.length (h.tree.injective hlow hmid)
    simp [tablePath] at hpath
  have hnew : ∀ {path p}, nodes' path = some p → path ≠ [] → p ∈ new := by
    intro path p hpath hne
    refine ((howns p).mp ⟨path, hpath⟩).resolve_left fun hold => hne ?_
    rw [Ownership.owns_rootOnly] at hold
    exact h.tree.injective (hold ▸ hpath) hroot
  have hmem : ∀ p, p ∈ new ↔ p ∈ [low, mid] := by
    intro p
    simp only [List.mem_cons, List.not_mem_nil, or_false]
    constructor
    · intro hp
      obtain ⟨path, hpath⟩ := (howns p).mpr (.inr hp)
      rcases h.paths hpath with hold | ⟨level, hlevel, rfl⟩
      · exact absurd (List.mem_append_left _ hp) (hapart.apart p ⟨path, hold⟩)
      · obtain rfl | rfl : level = 0 ∨ level = 1 := by omega
        · exact .inl (Option.some_inj.mp (hpath.symm.trans hlow))
        · exact .inr (Option.some_inj.mp (hpath.symm.trans hmid))
    · rintro (rfl | rfl)
      · exact hnew hlow (by simp [tablePath])
      · exact hnew hmid (by simp [tablePath])
  have hnodup : new.Nodup := (List.nodup_append.mp hapart.free.nodup).1
  have hlength : new.length = 2 :=
    ((List.perm_ext_iff_of_nodup hnodup (by simp [hne])).mpr hmem).length_eq
  exact ⟨(List.drop_left' hlength).symm, by simp [hlength]⟩

/-- Once the page is mapped every assertion of the test holds. -/
theorem exec_testPagetable_mapped {m m₁ m₂ m₃ : Memory} {pt pa : Word} {nodes : Tables}
    (hcreate : exec createPagetable m = .ok (pt, m₁))
    (halloc : exec allocPage m₁ = .ok (pa, m₂))
    (hmap : exec (mapPage pt 0x1000000 pa (pteR ||| pteW)) m₂ = .ok (0, m₃))
    (tree : Radix sv39 2 m₃.page nodes) (hroot : nodes [] = some pt)
    (hentry : pteOf m₃ nodes 0x1000000 = leafPte pa (pteR ||| pteW))
    (hpa : sv39.Table pa) : exec testPagetable m = .ok ((), m₃) := by
  have hperm : Perm (pteR ||| pteW) := by decide
  have hwalk := exec_walkLookup tree hroot 0x1000000
  obtain ⟨hfound, hpte⟩ : pteAddressOf nodes 0x1000000 ≠ 0 ∧
      m₃.word (pteAddressOf nodes 0x1000000) = leafPte pa (pteR ||| pteW) := by
    rcases pteAddressOf_spec tree 0x1000000 with ⟨-, hzero⟩ | ⟨hne, hword⟩
    · exact absurd (hentry.symm.trans hzero) (valid_ne_zero (leafPte_valid _ _))
    · exact ⟨hne, hword.trans hentry⟩
  have hload : exec (load (pteAddressOf nodes 0x1000000)) m₃ =
      .ok (leafPte pa (pteR ||| pteW), m₃) := by
    rw [exec_load, hpte]
  have hvalid : exec (isValid (pteAddressOf nodes 0x1000000)) m₃ = .ok (true, m₃) := by
    rw [isValid, exec_bind, hload]
    simp only [exec_pure, decide_eq_true (leafPte_valid _ _)]
  have hflags : ∀ mask : Word, mask &&& 0x3FF = mask →
      leafPte pa (pteR ||| pteW) &&& mask = (pteR ||| pteW ||| pteV) &&& mask := by
    intro mask hmask
    rw [leafPte_eq]
    exact pa2pte_or_and (by decide) hmask
  have hread : leafPte pa (pteR ||| pteW) &&& pteR ≠ 0 := by
    rw [hflags pteR (by decide)]
    decide
  have hwrite : leafPte pa (pteR ||| pteW) &&& pteW ≠ 0 := by
    rw [hflags pteW (by decide)]
    decide
  have hexecute : ¬ leafPte pa (pteR ||| pteW) &&& pteX ≠ 0 := by
    rw [hflags pteX (by decide)]
    decide
  unfold testPagetable
  refine exec_bind_ok.mpr ⟨_, _, hcreate, ?_⟩
  refine exec_bind_ok.mpr ⟨_, _, halloc, ?_⟩
  refine exec_bind_ok.mpr ⟨_, _, hmap, ?_⟩
  refine exec_bind_ok.mpr ⟨_, _, exec_assert rfl, ?_⟩
  refine exec_bind_ok.mpr ⟨_, _, hwalk, ?_⟩
  rw [if_neg hfound]
  refine exec_bind_ok.mpr ⟨_, _, hvalid, ?_⟩
  refine exec_bind_ok.mpr ⟨_, _, exec_assert rfl, ?_⟩
  refine exec_bind_ok.mpr ⟨_, _, hload, ?_⟩
  refine exec_bind_ok.mpr ⟨_, _, exec_assert (leafPte_pa hperm hpa.1 hpa.2.2), ?_⟩
  refine exec_bind_ok.mpr ⟨_, _, hload, ?_⟩
  refine exec_bind_ok.mpr ⟨_, _, exec_assert hread, ?_⟩
  refine exec_bind_ok.mpr ⟨_, _, hload, ?_⟩
  refine exec_bind_ok.mpr ⟨_, _, exec_assert hwrite, ?_⟩
  exact exec_bind_ok.mpr ⟨_, _, hload, exec_assert hexecute⟩

namespace VmInv

variable {img : Image} {s : VmState} {pages : List Word} {trees : Word → Tables}

/-- With four free pages the test takes these four and ends with one page table more. -/
theorem exec_testPagetable (range : Ranged img) (h : VmInv img s pages trees) :
    (4 ≤ pages.length ∧ ∃ s' trees', exec testPagetable s.memory = .ok ((), s'.memory) ∧
      VmInv img s' (pages.drop 4) trees' ∧ Undisturbed s s') ∨
      (pages.length < 4 ∧ exec testPagetable s.memory = .error (.panic "alloc_page")) := by
  by_cases hone : s.memory.freelist = 0
  · have hnil := h.pages_eq_nil hone
    refine .inr ⟨by simp [hnil], ?_⟩
    simp [testPagetable, createPagetable, exec_allocPage_empty hone]
  obtain ⟨rest, rfl⟩ := h.owned.free.exists_cons hone
  have hcreate := Ownership.exec_createPagetable hone
  have hnew := h.head_new
  have h₁ := h.create range
  by_cases htwo : (Ownership.zeroed s.memory).freelist = 0
  · have hnil := h₁.pages_eq_nil htwo
    refine .inr ⟨by simp [hnil], ?_⟩
    simp [testPagetable, hcreate, exec_allocPage_empty htwo]
  obtain ⟨rest, rfl⟩ := h₁.owned.free.exists_cons htwo
  have hpa : Managed img (Ownership.zeroed s.memory).freelist := h₁.owned.managed_free (by simp)
  have h₂ := h₁.alloc range htwo
  have hpaTable := hpa.table range
  have args : MapArgs ⟨(Ownership.zeroed s.memory).pop,
      insert (Ownership.zeroed s.memory).freelist s.outstanding,
      Function.update s.maps s.memory.freelist (some fun _ => none)⟩ s.memory.freelist 0x1000000
      (Ownership.zeroed s.memory).freelist (pteR ||| pteW) fun _ => none :=
    ⟨by simp, by decide, by decide, hpaTable.1, hpaTable.2.2, by decide, rfl⟩
  rcases h₂.exec_map range args with ⟨m', nodes', pages', hmap, hr⟩ | ⟨hmap, hlength⟩
  · left
    have htarget : Target (some ((Ownership.zeroed s.memory).freelist, pteR ||| pteW)) :=
      ⟨args.pa_aligned, args.pa_lt, args.perm_ok⟩
    have h₃ := h₂.rewrites range args.table args.va_aligned args.va_lt htarget hr
    have hroot := h₃.root (Function.update_self ..)
    have hentry := h₃.entry (Function.update_self ..) args.va_aligned (lt_maxVa args.va_lt)
    rw [Function.update_self] at hroot hentry
    have hexec := exec_testPagetable_mapped hcreate (exec_allocPage htwo) hmap hr.tree hroot
      hentry hpaTable
    have hapart := h₂.owned.apart range s.memory.freelist
    have hr' := hr
    rw [Function.update_self] at hapart hr'
    obtain ⟨rfl, htaken⟩ := hr'.taken_two hapart (valid_ne_zero (leafPte_valid _ _))
    refine ⟨by simp only [List.length_cons]; omega, _, _, hexec, h₃, ?_, ?_, ?_⟩
    · intro root map hsome
      have hne : root ≠ s.memory.freelist := by
        rintro rfl
        rw [hnew] at hsome
        cases hsome
      simpa only [Function.update_of_ne hne] using hsome
    · exact Finset.subset_insert ..
    · intro p hp a ha
      have hmanaged := h.owned.managed_other hp
      have hfree := h.owned.others_free hp
      have htaken₁ : p ≠ (Ownership.zeroed s.memory).freelist := by
        rintro rfl
        exact hfree (by simp)
      have hp₂ : p ∈ insert (Ownership.zeroed s.memory).freelist s.outstanding := by
        simp [hp]
      calc m'.word a
          = (Ownership.zeroed s.memory).pop.word a :=
            h₂.owned.rewrites_same hr hmanaged (h₂.owned.others_free hp₂)
              (h₂.owned.others_trees hp₂) ha
        _ = (Ownership.zeroed s.memory).word a := h₁.owned.pop_same hmanaged htaken₁ ha
        _ = s.memory.word a := h.owned.zeroed_same hmanaged hfree ha
  · refine .inr ⟨by simp only [List.length_cons]; omega, ?_⟩
    simp only [testPagetable, exec_bind, hcreate, exec_allocPage htwo, hmap]

end VmInv

/-! ## Any tests in any order -/

inductive SelfTest where
  | physicalMemory | pagetable
  deriving DecidableEq, Repr

namespace SelfTest

def program (img : Image) : SelfTest → MemM Unit
  | physicalMemory => testPhysicalMemory img
  | pagetable => testPagetable

def runAll (img : Image) : List SelfTest → MemM Unit
  | [] => pure ()
  | test :: tests => do
      test.program img
      runAll img tests

/-- The free pages a test needs. -/
def needs : SelfTest → Nat
  | physicalMemory => 2
  | pagetable => 4

/-- The pages a test does not give back. -/
def keeps : SelfTest → Nat
  | physicalMemory => 0
  | pagetable => 4

/-- Whether `free` pages are room for all of the tests. -/
def Room : Nat → List SelfTest → Prop
  | _, [] => True
  | free, test :: tests => test.needs ≤ free ∧ Room (free - test.keeps) tests

def kept (tests : List SelfTest) : Nat := (tests.map keeps).sum

example : Room 4 [physicalMemory, pagetable] ∧ ¬ Room 4 [pagetable, physicalMemory] := by
  simp [Room, needs, keeps]

end SelfTest

namespace VmInv

variable {img : Image} {s : VmState} {pages : List Word} {trees : Word → Tables}

theorem exec_selfTest (range : Ranged img) (h : VmInv img s pages trees) (test : SelfTest) :
    (test.needs ≤ pages.length ∧ ∃ s' trees',
      exec (test.program img) s.memory = .ok ((), s'.memory) ∧
      VmInv img s' (pages.drop test.keeps) trees' ∧ Undisturbed s s') ∨
      (pages.length < test.needs ∧
        exec (test.program img) s.memory = .error (.panic "alloc_page")) := by
  cases test with
  | physicalMemory =>
      rcases h.exec_testPhysicalMemory range with ⟨hroom, m', hexec, h', hkept⟩ | hempty
      · exact .inl ⟨hroom, ⟨m', s.outstanding, s.maps⟩, trees, hexec, h', hkept⟩
      · exact .inr hempty
  | pagetable => exact h.exec_testPagetable range

theorem exec_selfTests (range : Ranged img) (h : VmInv img s pages trees)
    (tests : List SelfTest) :
    (SelfTest.Room pages.length tests ∧ ∃ s' trees',
      exec (SelfTest.runAll img tests) s.memory = .ok ((), s'.memory) ∧
      VmInv img s' (pages.drop (SelfTest.kept tests)) trees' ∧ Undisturbed s s') ∨
      (¬ SelfTest.Room pages.length tests ∧
        exec (SelfTest.runAll img tests) s.memory = .error (.panic "alloc_page")) := by
  induction tests generalizing s pages trees with
  | nil => exact .inl ⟨trivial, s, trees, rfl, h, .refl s⟩
  | cons test tests ih =>
      rcases h.exec_selfTest range test with
        ⟨hroom, s₁, trees₁, hexec, h₁, hkept⟩ | ⟨hroom, hexec⟩
      · have hrest := ih h₁
        rw [List.length_drop, List.drop_drop] at hrest
        rcases hrest with ⟨hroom₁, s₂, trees₂, hexec₁, h₂, hkept₁⟩ | ⟨hroom₁, hexec₁⟩
        · refine .inl ⟨⟨hroom, hroom₁⟩, s₂, trees₂, ?_, ?_, hkept.trans hkept₁⟩
          · exact exec_bind_ok.mpr ⟨_, _, hexec, hexec₁⟩
          · simpa [SelfTest.kept] using h₂
        · refine .inr ⟨fun hall => hroom₁ hall.2, ?_⟩
          rw [SelfTest.runAll, exec_bind, hexec]
          exact hexec₁
      · refine .inr ⟨fun hall => by have hneeds := hall.1; omega, ?_⟩
        rw [SelfTest.runAll, exec_bind, hexec]

end VmInv

/-- In every state that a run from `pmm_init` reaches, any self-tests in any order pass
exactly when there is room for them, and then every page table is still the map it was
and every page handed out holds what it held.  Without room `alloc_page` panics: no
assertion fails. -/
def SelfTestsPass (img : Image) : Prop :=
  ∀ m₀ : Memory, m₀.freelist = 0 →
    ∃ m₁, exec (pmmInit img) m₀ = .ok ((), m₁) ∧
      ∀ s, ReflTransGen (VmStep img) ⟨m₁, ∅, fun _ => none⟩ s →
        ∃ pages, Chain s.memory.word 0 s.memory.freelist pages ∧ ∀ tests,
          (SelfTest.Room pages.length tests ∧ ∃ m,
            exec (SelfTest.runAll img tests) s.memory = .ok ((), m) ∧
            Chain m.word 0 m.freelist (pages.drop (SelfTest.kept tests)) ∧
            (∀ root map, s.maps root = some map → Agrees m root map) ∧
            ∀ p ∈ s.outstanding, ∀ a, InPage p a → m.word a = s.memory.word a) ∨
          (¬ SelfTest.Room pages.length tests ∧
            exec (SelfTest.runAll img tests) s.memory = .error (.panic "alloc_page"))

theorem self_tests_pass {img : Image} (range : Ranged img) : SelfTestsPass img := by
  intro m₀ hzero
  obtain ⟨m₁, pages₁, hexec, hlist, hall⟩ :=
    pmmInit_exec range.ne_zero range.below hzero
  refine ⟨m₁, hexec, fun s hrun => ?_⟩
  obtain ⟨pages, trees, h⟩ := (VmInv.init hlist hall).run range hrun
  refine ⟨pages, h.owned.free.chain, fun tests => ?_⟩
  rcases h.exec_selfTests range tests with ⟨hroom, s', trees', hexec, h', hkept⟩ | hempty
  · exact .inl ⟨hroom, s'.memory, hexec, h'.owned.free.chain,
      fun root map hmap => h'.agrees (hkept.maps hmap), hkept.same⟩
  · exact .inr hempty

theorem self_tests_pass_sample : SelfTestsPass sampleImage :=
  self_tests_pass ⟨by decide, by decide⟩

end Xv6Kernel.Mm
