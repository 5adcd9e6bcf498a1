import Xv6Kernel.Mm.Ownership

/-!
# What `destroy_pagetable` frees

The recursion goes down every valid entry and frees each page on its way back.
A leaf page counts here as a node one level below the tables, so that one
induction covers tables and leaves.
-/

namespace Xv6Kernel.Mm

open Xv6Kernel.Foundation

/-- A page table with the pages its leaf entries point to. -/
structure Teardown (mem : Word → Fin 512 → Word) (nodes : Tables) : Prop where
  injective : ∀ {path path' p}, nodes path = some p → nodes path' = some p →
    path = path'
  parent : ∀ {i path q}, nodes (i :: path) = some q → ∃ p, nodes path = some p
  bounded : ∀ {path p}, nodes path = some p → path.length ≤ 3
  missing : ∀ {path p}, nodes path = some p → path.length ≤ 2 → ∀ i,
    nodes (i :: path) = none → mem p i &&& pteV = 0
  present : ∀ {path p q}, nodes path = some p → path.length ≤ 2 → ∀ i,
    nodes (i :: path) = some q →
    mem p i &&& pteV ≠ 0 ∧ pte2pa (mem p i) = q ∧
      (mem p i &&& pteRWX = 0 ↔ path.length < 2)

/-- The pages at and below a path. -/
def Below (nodes : Tables) (path : List (Fin 512)) (q : Word) : Prop :=
  ∃ path', path <:+ path' ∧ nodes path' = some q

/-- From `(m, pages)` to `(m', pages')` the pages of `gone` were freed. -/
structure Frees (m m' : Memory) (pages pages' : List Word) (gone : Word → Prop) :
    Prop where
  free : FreeList m' pages'
  mem : ∀ q, q ∈ pages' ↔ gone q ∨ q ∈ pages
  frame : ∀ a, (∀ q, gone q → ¬ InPage q a) → m'.word a = m.word a
  kernelPagetable : m'.kernelPagetable = m.kernelPagetable

namespace Frees

variable {m m' m'' : Memory} {pages pages' pages'' : List Word}
  {gone gone' : Word → Prop}

theorem nothing (h : FreeList m pages) : Frees m m pages pages fun _ => False where
  free := h
  mem := by simp
  frame _ _ := rfl
  kernelPagetable := rfl

theorem one (h : FreeList m pages) {p : Word} (hp : Aligned p) (hne : p ≠ 0)
    (hnew : p ∉ pages) : Frees m (m.push p) pages (p :: pages) (· = p) where
  free := h.push hp hne hnew
  mem := by simp
  frame _ ha := m.push_word hp (ha p rfl)
  kernelPagetable := rfl

theorem trans (h : Frees m m' pages pages' gone)
    (h' : Frees m' m'' pages' pages'' gone') :
    Frees m m'' pages pages'' fun q => gone' q ∨ gone q where
  free := h'.free
  mem q := by rw [h'.mem, h.mem, or_assoc]
  frame a ha := by
    rw [h'.frame a fun q hq => ha q (.inl hq), h.frame a fun q hq => ha q (.inr hq)]
  kernelPagetable := h'.kernelPagetable.trans h.kernelPagetable

theorem congr (h : Frees m m' pages pages' gone) (hgone : ∀ q, gone q ↔ gone' q) :
    Frees m m' pages pages' gone' := by
  rwa [show gone' = gone from funext fun q => propext (hgone q).symm]

/-- Freeing pages leaves the words of another page. -/
theorem page_same (h : Frees m m' pages pages' gone)
    (hgone : ∀ q, gone q → Aligned q) {p : Word} (hp : Aligned p)
    (hother : ¬ gone p) (i : Fin 512) : m'.page p i = m.page p i := by
  refine h.frame _ fun q hq hin => hother ?_
  rwa [inPage_unique hp (hgone q hq) (inPage_cell hp i) hin]

end Frees

section Below

variable {mem : Word → Fin 512 → Word} {nodes : Tables} {path : List (Fin 512)}
  {p q : Word}

theorem below_cons_iff (hp : nodes path = some p) :
    Below nodes path q ↔ q = p ∨ ∃ i, Below nodes (i :: path) q := by
  constructor
  · rintro ⟨path', ⟨front, rfl⟩, hq⟩
    rcases front.eq_nil_or_concat with rfl | ⟨front', i, rfl⟩
    · rw [List.nil_append, hp] at hq
      exact .inl (Option.some.inj hq).symm
    · exact .inr ⟨i, _, ⟨front', by simp⟩, hq⟩
  · rintro (rfl | ⟨i, path', ⟨front, rfl⟩, hq⟩)
    · exact ⟨path, List.suffix_refl _, hp⟩
    · exact ⟨_, ⟨front ++ [i], by simp⟩, hq⟩

theorem below_nil_iff : Below nodes [] q ↔ Radix.Owns nodes q := by
  simp [Below, Radix.Owns]

theorem Teardown.none_below (h : Teardown mem nodes) {path' : List (Fin 512)}
    (hpath : path <:+ path') (hnone : nodes path = none) : nodes path' = none := by
  obtain ⟨front, rfl⟩ := hpath
  induction front with
  | nil => exact hnone
  | cons i front ih =>
      cases hnode : nodes (i :: front ++ path) with
      | none => rfl
      | some q =>
          obtain ⟨p, hp⟩ : ∃ p, nodes (front ++ path) = some p := h.parent hnode
          rw [ih] at hp
          cases hp

theorem Teardown.below_none (h : Teardown mem nodes) (hnone : nodes path = none) :
    ¬ Below nodes path q := by
  rintro ⟨path', hpath, hq⟩
  rw [h.none_below hpath hnone] at hq
  cases hq

theorem Teardown.below_leaf (h : Teardown mem nodes) (hp : nodes path = some p)
    (hlen : path.length = 3) : Below nodes path q ↔ q = p := by
  rw [below_cons_iff hp]
  refine or_iff_left ?_
  rintro ⟨i, path', hpath, hq⟩
  have hle := hpath.length_le
  have hbound := h.bounded hq
  simp only [List.length_cons] at hle
  omega

/-- The pages below two entries of a table are different pages. -/
theorem Teardown.below_disjoint (h : Teardown mem nodes) {i j : Fin 512}
    (hi : Below nodes (i :: path) q) (hj : Below nodes (j :: path) q) : i = j := by
  obtain ⟨path₁, hpath₁, hq₁⟩ := hi
  obtain ⟨path₂, hpath₂, hq₂⟩ := hj
  cases h.injective hq₁ hq₂
  have hsuffix := List.suffix_of_suffix_length_le hpath₁ hpath₂ (by simp)
  have heq := hsuffix.eq_of_length (by simp)
  exact (List.cons.inj heq).1

theorem Teardown.not_below_self (h : Teardown mem nodes) (hp : nodes path = some p)
    (i : Fin 512) : ¬ Below nodes (i :: path) p := by
  rintro ⟨path', hpath, hp'⟩
  cases h.injective hp hp'
  have hle := hpath.length_le
  simp at hle

end Below

/-! ## The recursion -/

section Recursion

variable {img : Image} {mem : Word → Fin 512 → Word} {nodes : Tables}

/-- Memory still holds the tables at and below a path. -/
def Intact (mem : Word → Fin 512 → Word) (nodes : Tables) (m : Memory)
    (path : List (Fin 512)) : Prop :=
  ∀ path' q, path <:+ path' → nodes path' = some q → path'.length ≤ 2 →
    ∀ i, m.page q i = mem q i

theorem Intact.child {m : Memory} {path : List (Fin 512)}
    (h : Intact mem nodes m path) (i : Fin 512) : Intact mem nodes m (i :: path) :=
  fun path' q hpath => h path' q ((List.suffix_cons i path).trans hpath)

theorem Intact.frees {m m' : Memory} {pages pages' : List Word} {gone : Word → Prop}
    {path : List (Fin 512)} (h : Intact mem nodes m path)
    (hfrees : Frees m m' pages pages' gone) (hgone : ∀ q, gone q → Aligned q)
    (haligned : ∀ path q, nodes path = some q → Aligned q)
    (hapart : ∀ q, Below nodes path q → ¬ gone q) : Intact mem nodes m' path := by
  intro path' q hpath hq hlen i
  rw [hfrees.page_same hgone (haligned _ _ hq) (hapart q ⟨path', hpath, hq⟩)]
  exact h path' q hpath hq hlen i

/-- The body of the loop for one entry. -/
def destroyEntry (img : Image) (depth : Nat) (pt : Word) (i : Fin 512) :
    MemM Unit := do
  let pte ← load (cell pt i)
  if pte &&& pteV ≠ 0 ∧ pte &&& pteRWX = 0 then
    destroyFrom img depth (pte2pa pte)
  else if pte &&& pteV ≠ 0 then
    freePage img (pte2pa pte)

theorem destroyFrom_succ (img : Image) (depth : Nat) (pt : Word) :
    destroyFrom img (depth + 1) pt =
      (Program.forEach (List.finRange 512) (destroyEntry img depth pt) >>= fun _ =>
        freePage img pt) := rfl

/-- What one recursive call does, for the tables at a path. -/
def DestroysBelow (img : Image) (mem : Word → Fin 512 → Word) (nodes : Tables)
    (depth : Nat) : Prop :=
  ∀ path p m pages, nodes path = some p → path.length ≤ 2 →
    3 ≤ path.length + depth → Intact mem nodes m path → FreeList m pages →
    (∀ q, Below nodes path q → q ∉ pages) →
    ∃ m' pages', exec (destroyFrom img depth p) m = .ok ((), m') ∧
      Frees m m' pages pages' (Below nodes path)

variable (range : Ranged img) (h : Teardown mem nodes)
  (hmanaged : ∀ path q, nodes path = some q → Managed img q)

include range h hmanaged

theorem exec_destroyEntry {depth : Nat} (ih : DestroysBelow img mem nodes depth)
    {path : List (Fin 512)} {p : Word} {m : Memory} {pages : List Word}
    (hp : nodes path = some p) (hlen : path.length ≤ 2)
    (hdepth : 2 ≤ path.length + depth) (hpage : ∀ i, m.page p i = mem p i)
    {i : Fin 512} (hintact : Intact mem nodes m (i :: path))
    (hfree : FreeList m pages) (hnew : ∀ q, Below nodes (i :: path) q → q ∉ pages) :
    ∃ m' pages', exec (destroyEntry img depth p i) m = .ok ((), m') ∧
      Frees m m' pages pages' (Below nodes (i :: path)) := by
  have hword : m.word (cell p i) = mem p i := hpage i
  cases hnode : nodes (i :: path) with
  | none =>
      have hinvalid : mem p i &&& pteV = 0#64 := h.missing hp hlen i hnode
      refine ⟨m, pages, by simp [destroyEntry, hword, hinvalid], ?_⟩
      refine (Frees.nothing hfree).congr fun q => ?_
      simpa using h.below_none hnode
  | some q =>
      obtain ⟨hvalid, htarget, htable⟩ := h.present hp hlen i hnode
      have hvalid' : ¬ mem p i &&& pteV = 0#64 := hvalid
      by_cases hinner : path.length < 2
      · have hrwx : mem p i &&& pteRWX = 0#64 := htable.mpr hinner
        obtain ⟨m', pages', hexec, hfrees⟩ := ih (i :: path) q m pages hnode
          (by simp only [List.length_cons]; omega) (by simp only [List.length_cons]; omega) hintact
          hfree hnew
        refine ⟨m', pages', ?_, hfrees⟩
        simp [destroyEntry, hword, hvalid', hrwx, htarget, hexec]
      · have hrwx : ¬ mem p i &&& pteRWX = 0#64 := fun heq => hinner (htable.mp heq)
        have hleaf := fun q' => h.below_leaf (q := q') hnode
          (by simp only [List.length_cons]; omega)
        have hq := hmanaged _ _ hnode
        have hone := Frees.one hfree hq.aligned (hq.ne_zero range.ne_zero range.below)
          (hnew q ((hleaf q).mpr rfl))
        refine ⟨m.push q, q :: pages, ?_, hone.congr fun q' => (hleaf q').symm⟩
        simp [destroyEntry, hword, hvalid', hrwx, htarget,
          exec_freePage_managed range.below hq]

theorem exec_destroyEntries {depth : Nat} (ih : DestroysBelow img mem nodes depth)
    {path : List (Fin 512)} {p : Word} {m : Memory} {pages : List Word}
    (hp : nodes path = some p) (hlen : path.length ≤ 2)
    (hdepth : 2 ≤ path.length + depth) (hpage : ∀ i, m.page p i = mem p i)
    {indices : List (Fin 512)} (hnodup : indices.Nodup)
    (hintact : ∀ i ∈ indices, Intact mem nodes m (i :: path))
    (hfree : FreeList m pages)
    (hnew : ∀ i ∈ indices, ∀ q, Below nodes (i :: path) q → q ∉ pages) :
    ∃ m' pages',
      exec (Program.forEach indices (destroyEntry img depth p)) m = .ok ((), m') ∧
        Frees m m' pages pages' fun q => ∃ i ∈ indices, Below nodes (i :: path) q := by
  induction indices generalizing m pages with
  | nil =>
      exact ⟨m, pages, rfl, (Frees.nothing hfree).congr (by simp)⟩
  | cons i indices ihList =>
      obtain ⟨hi, hnodup'⟩ := List.nodup_cons.mp hnodup
      obtain ⟨m₁, pages₁, hexec₁, hfrees₁⟩ := exec_destroyEntry range h hmanaged ih hp
        hlen hdepth hpage (hintact i (by simp)) hfree (hnew i (by simp))
      have haligned : ∀ q, Below nodes (i :: path) q → Aligned q := by
        rintro q ⟨path', -, hq⟩
        exact (hmanaged _ _ hq).aligned
      have hpage₁ : ∀ j, m₁.page p j = mem p j := by
        intro j
        rw [hfrees₁.page_same haligned (hmanaged _ _ hp).aligned
          (h.not_below_self hp i), hpage]
      have happart : ∀ j ∈ indices, ∀ q, Below nodes (j :: path) q →
          ¬ Below nodes (i :: path) q := by
        rintro j hj q hq hqi
        exact hi (h.below_disjoint hqi hq ▸ hj)
      obtain ⟨m₂, pages₂, hexec₂, hfrees₂⟩ := ihList hpage₁ hnodup'
        (fun j hj => (hintact j (by simp [hj])).frees hfrees₁ haligned
          (fun path q hq => (hmanaged path q hq).aligned) (happart j hj))
        hfrees₁.free fun j hj q hq hmem => by
          rcases (hfrees₁.mem q).mp hmem with hgone | hold
          · exact happart j hj q hq hgone
          · exact hnew j (by simp [hj]) q hq hold
      refine ⟨m₂, pages₂, ?_, (hfrees₁.trans hfrees₂).congr fun q => ?_⟩
      · simp [Program.forEach, hexec₁, hexec₂]
      · simp [or_comm]

theorem exec_destroyFrom (depth : Nat) : DestroysBelow img mem nodes depth := by
  induction depth with
  | zero =>
      intro path p m pages _ hlen hdepth
      omega
  | succ depth ih =>
      intro path p m pages hp hlen hdepth hintact hfree hnew
      have hpm := hmanaged _ _ hp
      have hbelow := fun q => below_cons_iff (q := q) hp
      have hpage := hintact path p (List.suffix_refl _) hp hlen
      obtain ⟨m₁, pages₁, hexec₁, hfrees₁⟩ := exec_destroyEntries range h hmanaged ih hp
        hlen (by omega) hpage (List.nodup_finRange 512)
        (fun i _ => hintact.child i) hfree
        fun i _ q hq => hnew q ((hbelow q).mpr (.inr ⟨i, hq⟩))
      have hself : p ∉ pages₁ := by
        intro hmem
        rcases (hfrees₁.mem p).mp hmem with ⟨i, -, hgone⟩ | hold
        · exact h.not_below_self hp i hgone
        · exact hnew p ((hbelow p).mpr (.inl rfl)) hold
      have hone := Frees.one hfrees₁.free hpm.aligned
        (hpm.ne_zero range.ne_zero range.below) hself
      refine ⟨m₁.push p, p :: pages₁, ?_, (hfrees₁.trans hone).congr fun q => ?_⟩
      · simp [destroyFrom_succ, hexec₁, exec_freePage_managed range.below hpm]
      · rw [hbelow q]
        simp

/-- `destroy_pagetable` frees the tables and the mapped pages, each once. -/
theorem exec_destroyPagetable {root : Word} {m : Memory} {pages : List Word}
    (hroot : nodes [] = some root)
    (hpage : ∀ path q, nodes path = some q → path.length ≤ 2 →
      ∀ i, m.page q i = mem q i)
    (hfree : FreeList m pages) (hnew : ∀ q, Radix.Owns nodes q → q ∉ pages) :
    ∃ m' pages', exec (destroyPagetable img root) m = .ok ((), m') ∧
      Frees m m' pages pages' (Radix.Owns nodes) := by
  obtain ⟨m', pages', hexec, hfrees⟩ := exec_destroyFrom range h hmanaged (2 ^ 52 + 1)
    [] root m pages hroot (by simp) (by simp) (fun path q _ => hpage path q) hfree
    fun q hq => hnew q (below_nil_iff.mp hq)
  exact ⟨m', pages', hexec, hfrees.congr fun q => below_nil_iff⟩

end Recursion

/-- The entry above a table points to it and is no leaf. -/
theorem Teardown.present_table {mem : Word → Fin 512 → Word} {nodes : Tables}
    (h : Radix sv39 2 mem nodes) {path : List (Fin 512)} {p q : Word} {i : Fin 512}
    (hp : nodes path = some p) (hinner : path.length < 2)
    (hq : nodes (i :: path) = some q) :
    mem p i &&& pteV ≠ 0 ∧ pte2pa (mem p i) = q ∧
      (mem p i &&& pteRWX = 0 ↔ path.length < 2) := by
  have hlink : mem p i = sv39.link q := by
    rw [h.inner hp hinner, hq]
    rfl
  refine ⟨?_, h.target_inner hp hinner hq, iff_of_true ?_ hinner⟩
  · rw [hlink]
    exact sv39.link_valid q
  · rw [hlink]
    change (pa2pte q ||| pteV) &&& pteRWX = 0
    rw [pa2pte_or_and (by decide) (by decide)]
    decide

/-- A page table with nothing mapped has no pages but its tables. -/
theorem Teardown.of_unmapped {mem : Word → Fin 512 → Word} {nodes : Tables}
    (h : Radix sv39 2 mem nodes)
    (hempty : ∀ path p, nodes path = some p → path.length = 2 → ∀ i, mem p i = 0) :
    Teardown mem nodes where
  injective := h.injective
  parent := h.parent
  bounded hp := Nat.le_succ_of_le (h.bounded hp)
  missing := by
    intro path p hp hlen i hnone
    by_cases hinner : path.length < 2
    · have hvalid := h.inner_valid hp hinner i
      simpa [hnone, sv39] using hvalid
    · rw [hempty path p hp (by omega)]
      simp
  present := by
    intro path p q hp hlen i hq
    exact Teardown.present_table h hp (h.bounded hq) hq

namespace Ownership

variable {τ : Type} [DecidableEq τ] {img : Image} {m : Memory} {pages : List Word}
  {trees : τ → Tables} {others : Word → Prop}

/-- Destroying an unmapped page table gives its tables back, and only them. -/
theorem exec_destroy (range : Ranged img) (h : Ownership img m pages trees others)
    {t : τ} {root : Word} (hroot : trees t [] = some root)
    (hempty : ∀ k : List (Fin 512), k.length = 3 →
      Radix.entry sv39 m.page (trees t) k = 0) :
    ∃ m' pages', exec (destroyPagetable img root) m = .ok ((), m') ∧
      Ownership img m' pages' (Function.update trees t fun _ => none) others ∧
      m'.kernelPagetable = m.kernelPagetable ∧
      (∀ q, q ∈ pages' ↔ Radix.Owns (trees t) q ∨ q ∈ pages) ∧
      ∀ q, Managed img q → q ∉ pages → ¬ Radix.Owns (trees t) q →
        ∀ a, InPage q a → m'.word a = m.word a := by
  have hteardown : Teardown m.page (trees t) := by
    refine .of_unmapped (h.tree t) fun path p hp hlen i => ?_
    have hentry := hempty (i :: path) (by simp [hlen])
    rwa [Radix.entry_of_node hp] at hentry
  obtain ⟨m', pages', hexec, hfrees⟩ := exec_destroyPagetable range hteardown
    (fun path q hq => h.managed_tree ⟨path, hq⟩) hroot (fun _ _ _ _ _ => rfl) h.free
    fun q hq => h.trees_free hq
  have hsame : ∀ q, Managed img q → q ∉ pages → ¬ Radix.Owns (trees t) q →
      ∀ a, InPage q a → m'.word a = m.word a := by
    intro q hq _ hown a ha
    refine hfrees.frame a fun q' hq' hin => hown ?_
    rwa [inPage_unique hq.aligned (h.managed_tree hq').aligned ha hin]
  refine ⟨m', pages', hexec, h.update hfrees.free ⟨nofun, nofun, nofun, nofun, nofun,
    nofun⟩ (fun p => ?_) (by simp [Radix.Owns]) hsame, hfrees.kernelPagetable,
    hfrees.mem, hsame⟩
  rw [hfrees.mem]
  simp only [Radix.Owns, reduceCtorEq, exists_false, or_false]
  exact or_comm

end Ownership

end Xv6Kernel.Mm
