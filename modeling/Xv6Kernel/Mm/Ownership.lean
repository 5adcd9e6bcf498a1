import Xv6Kernel.Mm.AllocatorRuns
import Xv6Kernel.Mm.Mapping

/-!
# Who has which page

Every managed page is on the free list, is a table of exactly one page table, or
is with some other owner.  Each operation on pages moves one boundary between
these and leaves the contents of all other pages alone.
-/

namespace Xv6Kernel.Mm

open Xv6Kernel.Foundation

variable {τ : Type}

/-- The managed pages shared out among the free list, the page tables `trees`
and the other owners. -/
structure Ownership (img : Image) (m : Memory) (pages : List Word)
    (trees : τ → Tables) (others : Word → Prop) : Prop where
  free : FreeList m pages
  tree : ∀ t, Radix sv39 2 m.page (trees t)
  trees_apart : ∀ {t t' p}, Radix.Owns (trees t) p → Radix.Owns (trees t') p → t = t'
  trees_free : ∀ {t p}, Radix.Owns (trees t) p → p ∉ pages
  others_free : ∀ {p}, others p → p ∉ pages
  others_trees : ∀ {t p}, others p → ¬ Radix.Owns (trees t) p
  cover : ∀ p, (p ∈ pages ∨ (∃ t, Radix.Owns (trees t) p) ∨ others p) ↔
    Managed img p

/-- Page 0 is not managed and the managed pages end at `PHYSTOP`. -/
structure Ranged (img : Image) : Prop where
  ne_zero : img.end_ ≠ 0
  below : img.end_ < physTop

theorem Managed.table {img : Image} (range : Ranged img) {p : Word}
    (h : Managed img p) : sv39.Table p := by
  have htop := physTop_toNat
  have hhigh := h.2.2
  exact ⟨h.aligned, h.ne_zero range.ne_zero range.below, by omega⟩

namespace Ownership

variable {img : Image} {m m' : Memory} {page r : Word} {pages rest : List Word}
  {trees : τ → Tables} {others : Word → Prop}

theorem apart (range : Ranged img) (h : Ownership img m pages trees others)
    (t : τ) : Apart m (trees t) pages where
  tree := h.tree t
  free := h.free
  table p hp := ((h.cover p).mp (.inl hp)).table range
  apart _ hp := h.trees_free hp

theorem managed_tree (h : Ownership img m pages trees others) {t : τ} {p : Word}
    (hp : Radix.Owns (trees t) p) : Managed img p :=
  (h.cover p).mp (.inr (.inl ⟨t, hp⟩))

theorem managed_free (h : Ownership img m pages trees others) {p : Word}
    (hp : p ∈ pages) : Managed img p :=
  (h.cover p).mp (.inl hp)

theorem managed_other (h : Ownership img m pages trees others) {p : Word}
    (hp : others p) : Managed img p :=
  (h.cover p).mp (.inr (.inr hp))

theorem init (hfree : FreeList m pages) (hall : ∀ q, q ∈ pages ↔ Managed img q) :
    Ownership img m pages (fun _ : τ => fun _ => none) fun _ => False where
  free := hfree
  tree _ := ⟨nofun, nofun, nofun, nofun, nofun, nofun⟩
  trees_apart := by simp [Radix.Owns]
  trees_free := by simp [Radix.Owns]
  others_free := False.elim
  others_trees := False.elim
  cover p := by simpa [Radix.Owns] using hall p

/-- An owner may write whatever it likes into its own pages. -/
theorem write (h : Ownership img m pages trees others)
    (hhead : m'.freelist = m.freelist)
    (hsame : ∀ q, Managed img q → ¬ others q → ∀ a, InPage q a →
      m'.word a = m.word a) :
    Ownership img m' pages trees others where
  free := h.free.frame hhead fun q hq =>
    hsame q (h.managed_free hq) (fun hother => h.others_free hother hq) q
      (inPage_self (h.managed_free hq).aligned)
  tree t := (h.tree t).frame fun q hq i =>
    hsame q (h.managed_tree hq) (fun hother => h.others_trees hother hq) _
      (inPage_cell (h.managed_tree hq).aligned i)
  trees_apart := h.trees_apart
  trees_free := h.trees_free
  others_free := h.others_free
  others_trees := h.others_trees
  cover := h.cover

/-- The pages of a table are not where an owner writes. -/
theorem pteOf_write (h : Ownership img m pages trees others)
    (hsame : ∀ q, Managed img q → ¬ others q → ∀ a, InPage q a →
      m'.word a = m.word a) (t : τ) (va : Word) :
    pteOf m' (trees t) va = pteOf m (trees t) va :=
  Radix.entry_frame (fun q hq i =>
    hsame q (h.managed_tree hq) (fun hother => h.others_trees hother hq) _
      (inPage_cell (h.managed_tree hq).aligned i)) (key va)

section Head

variable (h : Ownership img m (m.freelist :: rest) trees others)

include h

theorem head_new : m.freelist ∉ rest :=
  (List.nodup_cons.mp h.free.nodup).1

/-- Taking the first free page touches no other page. -/
theorem pop_same {q : Word} (hq : Managed img q) (hne : q ≠ m.freelist) {a : Word}
    (ha : InPage q a) : m.pop.word a = m.word a :=
  m.pop_word fun hin => hne
    (inPage_unique hq.aligned (h.managed_free (by simp)).aligned ha hin)

theorem tree_ne_head {t : τ} {q : Word} (hq : Radix.Owns (trees t) q) :
    q ≠ m.freelist :=
  fun heq => h.trees_free hq (heq ▸ by simp)

theorem pop : Ownership img m.pop rest trees fun p => others p ∨ p = m.freelist where
  free := h.free.pop
  tree t := (h.tree t).frame fun _ hq i =>
    h.pop_same (h.managed_tree hq) (h.tree_ne_head hq)
      (inPage_cell (h.managed_tree hq).aligned i)
  trees_apart := h.trees_apart
  trees_free hq hmem := h.trees_free hq (by simp [hmem])
  others_free := by
    rintro p (hp | rfl)
    · exact fun hmem => h.others_free hp (by simp [hmem])
    · exact h.head_new
  others_trees := by
    rintro t p (hp | rfl) hq
    · exact h.others_trees hp hq
    · exact h.tree_ne_head hq rfl
  cover p := by
    rw [← h.cover p, List.mem_cons]
    tauto

theorem pteOf_pop (t : τ) (va : Word) :
    pteOf m.pop (trees t) va = pteOf m (trees t) va :=
  Radix.entry_frame (fun _ hq i => h.pop_same (h.managed_tree hq)
    (h.tree_ne_head hq) (inPage_cell (h.managed_tree hq).aligned i)) (key va)

end Head

section Push

variable (range : Ranged img) (h : Ownership img m pages trees others)
  (hp : others page)

include h hp

theorem push_same {q : Word} (hq : Managed img q) (hne : q ≠ page) {a : Word}
    (ha : InPage q a) : (m.push page).word a = m.word a :=
  m.push_word (h.managed_other hp).aligned fun hin => hne
    (inPage_unique hq.aligned (h.managed_other hp).aligned ha hin)

theorem tree_ne_other {t : τ} {q : Word} (hq : Radix.Owns (trees t) q) :
    q ≠ page :=
  fun heq => h.others_trees hp (heq ▸ hq)

theorem pteOf_push (t : τ) (va : Word) :
    pteOf (m.push page) (trees t) va = pteOf m (trees t) va :=
  Radix.entry_frame (fun _ hq i => h.push_same hp (h.managed_tree hq)
    (h.tree_ne_other hp hq) (inPage_cell (h.managed_tree hq).aligned i)) (key va)

include range

theorem push :
    Ownership img (m.push page) (page :: pages) trees
      fun q => others q ∧ q ≠ page where
  free := h.free.push (h.managed_other hp).aligned
    ((h.managed_other hp).ne_zero range.ne_zero range.below) (h.others_free hp)
  tree t := (h.tree t).frame fun _ hq i =>
    h.push_same hp (h.managed_tree hq) (h.tree_ne_other hp hq)
      (inPage_cell (h.managed_tree hq).aligned i)
  trees_apart := h.trees_apart
  trees_free := by
    rintro t q hq hmem
    rcases List.mem_cons.mp hmem with rfl | hmem
    · exact h.others_trees hp hq
    · exact h.trees_free hq hmem
  others_free := by
    rintro q ⟨hq, hne⟩ hmem
    exact h.others_free hq ((List.mem_cons.mp hmem).resolve_left hne)
  others_trees := fun hq => h.others_trees hq.1
  cover q := by
    rw [← h.cover q, List.mem_cons]
    by_cases heq : q = page
    · simp [heq, hp]
    · simp [heq]

end Push

section Tree

variable [DecidableEq τ]

theorem owns_update {nodes : Tables} {t t' : τ} {p : Word}
    (h : Radix.Owns (Function.update trees t nodes t') p) :
    (t' = t ∧ Radix.Owns nodes p) ∨ (t' ≠ t ∧ Radix.Owns (trees t') p) := by
  by_cases heq : t' = t
  · subst heq
    rw [Function.update_self] at h
    exact .inl ⟨rfl, h⟩
  · rw [Function.update_of_ne heq] at h
    exact .inr ⟨heq, h⟩

theorem exists_owns_update {nodes : Tables} {t : τ} {p : Word} :
    (∃ t', Radix.Owns (Function.update trees t nodes t') p) ↔
      Radix.Owns nodes p ∨ ∃ t', t' ≠ t ∧ Radix.Owns (trees t') p := by
  constructor
  · rintro ⟨t', hp⟩
    exact (owns_update hp).imp (·.2) fun hold => ⟨t', hold⟩
  · rintro (hp | ⟨t', hne, hp⟩)
    · exact ⟨t, by rwa [Function.update_self]⟩
    · exact ⟨t', by rwa [Function.update_of_ne hne]⟩

/-- One page table changes to `nodes'`, on pages that were its own or free. -/
theorem update (h : Ownership img m pages trees others) {t : τ} {nodes' : Tables}
    {pages' : List Word} (hfree : FreeList m' pages')
    (htree : Radix sv39 2 m'.page nodes')
    (hsplit : ∀ p, (p ∈ pages' ∨ Radix.Owns nodes' p) ↔
      (p ∈ pages ∨ Radix.Owns (trees t) p))
    (hapart : ∀ p, Radix.Owns nodes' p → p ∉ pages')
    (hsame : ∀ q, Managed img q → q ∉ pages → ¬ Radix.Owns (trees t) q →
      ∀ a, InPage q a → m'.word a = m.word a) :
    Ownership img m' pages' (Function.update trees t nodes') others where
  free := hfree
  tree t' := by
    by_cases heq : t' = t
    · subst heq
      rwa [Function.update_self]
    · rw [Function.update_of_ne heq]
      refine (h.tree t').frame fun q hq i => ?_
      exact hsame q (h.managed_tree hq) (h.trees_free hq)
        (fun hown => heq (h.trees_apart hq hown)) _
        (inPage_cell (h.managed_tree hq).aligned i)
  trees_apart := by
    intro t₁ t₂ p h₁ h₂
    have hboth : ∀ t', t' ≠ t → Radix.Owns (trees t') p → ¬ Radix.Owns nodes' p := by
      intro t' hne hp hnew
      rcases (hsplit p).mp (.inr hnew) with hmem | hown
      · exact h.trees_free hp hmem
      · exact hne (h.trees_apart hp hown)
    rcases owns_update h₁ with ⟨heq₁, new₁⟩ | ⟨hne₁, old₁⟩ <;>
      rcases owns_update h₂ with ⟨heq₂, new₂⟩ | ⟨hne₂, old₂⟩
    · rw [heq₁, heq₂]
    · exact absurd new₁ (hboth _ hne₂ old₂)
    · exact absurd new₂ (hboth _ hne₁ old₁)
    · exact h.trees_apart old₁ old₂
  trees_free := by
    intro t' p hp hmem
    rcases owns_update hp with ⟨-, hnew⟩ | ⟨hne, hold⟩
    · exact hapart p hnew hmem
    · rcases (hsplit p).mp (.inl hmem) with hmem' | hown
      · exact h.trees_free hold hmem'
      · exact hne (h.trees_apart hold hown)
  others_free := by
    intro p hp hmem
    rcases (hsplit p).mp (.inl hmem) with hmem' | hown
    · exact h.others_free hp hmem'
    · exact h.others_trees hp hown
  others_trees := by
    intro t' p hp hown
    rcases owns_update hown with ⟨-, hnew⟩ | ⟨-, hold⟩
    · rcases (hsplit p).mp (.inr hnew) with hmem' | hown'
      · exact h.others_free hp hmem'
      · exact h.others_trees hp hown'
    · exact h.others_trees hp hold
  cover p := by
    rw [← h.cover p, exists_owns_update]
    have hsplit' := hsplit p
    constructor
    · rintro (hmem | (hown | ⟨t', -, hown⟩) | hother)
      · exact (hsplit'.mp (.inl hmem)).imp id fun hown => .inl ⟨t, hown⟩
      · exact (hsplit'.mp (.inr hown)).imp id fun hown => .inl ⟨t, hown⟩
      · exact .inr (.inl ⟨t', hown⟩)
      · exact .inr (.inr hother)
    · rintro (hmem | ⟨t', hown⟩ | hother)
      · exact (hsplit'.mpr (.inl hmem)).imp id fun hown => .inl (.inl hown)
      · by_cases heq : t' = t
        · subst heq
          exact (hsplit'.mpr (.inr hown)).imp id fun hown => .inl (.inl hown)
        · exact .inr (.inl (.inr ⟨t', heq, hown⟩))
      · exact .inr (.inr hother)

theorem pteOf_update (h : Ownership img m pages trees others) {t t' : τ}
    {nodes' : Tables}
    (hsame : ∀ q, Managed img q → q ∉ pages → ¬ Radix.Owns (trees t) q →
      ∀ a, InPage q a → m'.word a = m.word a) (hne : t' ≠ t) (va : Word) :
    pteOf m' (Function.update trees t nodes' t') va = pteOf m (trees t') va := by
  rw [Function.update_of_ne hne]
  exact Radix.entry_frame (fun q hq i => hsame q (h.managed_tree hq)
    (h.trees_free hq) (fun hown => hne (h.trees_apart hq hown)) _
    (inPage_cell (h.managed_tree hq).aligned i)) (key va)

omit [DecidableEq τ] in
/-- What `map_page` and `unmap_page` do to one table leaves the others theirs. -/
theorem rewrites_same (h : Ownership img m pages trees others) {t : τ}
    {va pte : Word} {nodes' : Tables} {pages' : List Word}
    (hrewrites : Rewrites va pte m m' (trees t) nodes' pages pages') {q : Word}
    (hq : Managed img q) (hfree : q ∉ pages) (hown : ¬ Radix.Owns (trees t) q)
    {a : Word} (ha : InPage q a) : m'.word a = m.word a := by
  obtain ⟨new, rfl, howns⟩ := hrewrites.taken
  refine hrewrites.page_frame hq.aligned (fun hnew => ?_) ha
  rcases (howns q).mp hnew with hold | hmem
  · exact hown hold
  · exact hfree (List.mem_append_left _ hmem)

theorem rewrites (range : Ranged img) (h : Ownership img m pages trees others)
    {t : τ} {va pte : Word} {nodes' : Tables} {pages' : List Word}
    (hrewrites : Rewrites va pte m m' (trees t) nodes' pages pages') :
    Ownership img m' pages' (Function.update trees t nodes') others := by
  have hapart := hrewrites.apart (h.apart range t)
  refine h.update hrewrites.free hrewrites.tree (fun p => ?_) hapart.apart
    fun q hq hfree hown a ha => h.rewrites_same hrewrites hq hfree hown ha
  obtain ⟨new, rfl, howns⟩ := hrewrites.taken
  rw [howns, List.mem_append]
  tauto

/-- The tables of a page table that is one empty page. -/
def rootOnly (r : Word) : Tables := Function.update (fun _ => none) [] (some r)

theorem owns_rootOnly {r p : Word} : Radix.Owns (rootOnly r) p ↔ p = r := by
  rw [rootOnly, Radix.owns_update rfl]
  simp [Radix.Owns]

/-- Memory after `create_pagetable`. -/
def zeroed (m : Memory) : Memory := m.pop.fill m.freelist 0 pgSize

theorem zeroed_word (m : Memory) {a : Word} (ha : ¬ InPage m.freelist a) :
    (zeroed m).word a = m.word a := by
  rw [zeroed, Memory.fill_out _ _ ha, Memory.pop_word _ ha]

theorem zeroed_page (hr : Aligned m.freelist) (i : Fin 512) :
    (zeroed m).page m.freelist i = 0 := by
  rw [zeroed, page_fill_self _ hr]
  decide

omit [DecidableEq τ] in
theorem zeroed_same (h : Ownership img m (m.freelist :: rest) trees others)
    {q : Word} (hq : Managed img q) (hfree : q ∉ m.freelist :: rest) {a : Word}
    (ha : InPage q a) : (zeroed m).word a = m.word a := by
  have hhead : Managed img m.freelist := h.managed_free (by simp)
  refine zeroed_word m fun hin => hfree ?_
  rw [inPage_unique hq.aligned hhead.aligned ha hin]
  simp

theorem exec_createPagetable (hfree : m.freelist ≠ 0) :
    exec createPagetable m = .ok (m.freelist, zeroed m) := by
  have hne : ¬ m.freelist = 0#64 := hfree
  simp [createPagetable, exec_allocPage hfree, hne, zeroed]

theorem pteOf_rootOnly (m : Memory) (r va : Word) :
    pteOf m (rootOnly r) va = 0 := by
  unfold pteOf key
  rw [Radix.entry_of_none rfl]
  rfl

theorem create (range : Ranged img)
    (h : Ownership img m (m.freelist :: rest) trees others) {t : τ}
    (hempty : trees t = fun _ => none) :
    Ownership img (zeroed m) rest
      (Function.update trees t (rootOnly m.freelist)) others := by
  have hhead : Managed img m.freelist := h.managed_free (by simp)
  have htable := hhead.table range
  refine h.update (h.free.pop.frame rfl fun q hq => ?_) ?_ (fun p => ?_)
    (fun p hp hmem => ?_) fun q hq hfree _ a ha => h.zeroed_same hq hfree ha
  · have hqm := h.managed_free (List.mem_cons_of_mem _ hq)
    refine Memory.fill_out _ _ fun hin => h.head_new ?_
    rwa [inPage_unique hhead.aligned hqm.aligned hin (inPage_self hqm.aligned)]
  · have hnode : ∀ {path p}, rootOnly m.freelist path = some p →
        path = [] ∧ p = m.freelist := fun hp =>
      (Radix.node_update hp).resolve_right (by simp)
    refine ⟨fun hp => (hnode hp).2 ▸ htable, fun hp => ?_, fun hp => ?_,
      fun hp hp' => (hnode hp).1.trans (hnode hp').1.symm, fun hp _ i => ?_,
      fun hp hlen => ?_⟩
    · simp [(hnode hp).1]
    · exact absurd (hnode hp).1 (by simp)
    · obtain ⟨rfl, rfl⟩ := hnode hp
      rw [zeroed_page hhead.aligned]
      rfl
    · rw [(hnode hp).1] at hlen
      simp at hlen
  · rw [owns_rootOnly, hempty, List.mem_cons]
    simp only [Radix.Owns, reduceCtorEq, exists_false, or_false]
    exact or_comm
  · exact h.head_new ((owns_rootOnly.mp hp) ▸ hmem)

end Tree

end Ownership

end Xv6Kernel.Mm
