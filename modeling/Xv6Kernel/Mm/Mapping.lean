import Xv6Kernel.Mm.Translation

/-!
# What `walk_create`, `map_page` and `unmap_page` change

Each of them sets at most one level-0 entry and adds at most the two tables on
the way to it, taken from the front of the free list.
-/

namespace Xv6Kernel.Mm

open Xv6Kernel.Foundation

/-- A page table whose tables lie apart from the free pages. -/
structure Apart (m : Memory) (nodes : Tables) (pages : List Word) : Prop where
  tree : Radix sv39 2 m.page nodes
  free : FreeList m pages
  table : ∀ p ∈ pages, sv39.Table p
  apart : ∀ p, Radix.Owns nodes p → p ∉ pages

/-- From `(m, nodes, pages)` to `(m', nodes', pages')` the entry of `va` became
`pte`, tables were added on the way to it, and all else stayed. -/
structure Rewrites (va pte : Word) (m m' : Memory) (nodes nodes' : Tables)
    (pages pages' : List Word) : Prop where
  tree : Radix sv39 2 m'.page nodes'
  free : FreeList m' pages'
  taken : ∃ new, pages = new ++ pages' ∧
    ∀ p, Radix.Owns nodes' p ↔ Radix.Owns nodes p ∨ p ∈ new
  kept : ∀ {path p}, nodes path = some p → nodes' path = some p
  paths : ∀ {path p}, nodes' path = some p →
    nodes path = some p ∨ ∃ level < 2, path = tablePath va level
  entries : ∀ k : List (Fin 512), k.length = 3 →
    Radix.entry sv39 m'.page nodes' k =
      if k = key va then pte else Radix.entry sv39 m.page nodes k
  frame : ∀ a, (∀ p, Radix.Owns nodes' p → ¬ InPage p a) → m'.word a = m.word a
  kernelPagetable : m'.kernelPagetable = m.kernelPagetable

namespace Rewrites

variable {va pte pte' : Word} {m m' m'' : Memory} {nodes nodes' nodes'' : Tables}
  {pages pages' pages'' : List Word}

theorem refl (h : Apart m nodes pages) (va : Word) :
    Rewrites va (pteOf m nodes va) m m nodes nodes pages pages where
  tree := h.tree
  free := h.free
  taken := ⟨[], rfl, by simp⟩
  kept := id
  paths := .inl
  entries k _ := by
    split
    · next heq => rw [heq, pteOf]
    · rfl
  frame _ _ := rfl
  kernelPagetable := rfl

theorem owns (h : Rewrites va pte m m' nodes nodes' pages pages') {p : Word}
    (hp : Radix.Owns nodes p) : Radix.Owns nodes' p := by
  obtain ⟨path, hpath⟩ := hp
  exact ⟨path, h.kept hpath⟩

theorem trans (h : Rewrites va pte m m' nodes nodes' pages pages')
    (h' : Rewrites va pte' m' m'' nodes' nodes'' pages' pages'') :
    Rewrites va pte' m m'' nodes nodes'' pages pages'' where
  tree := h'.tree
  free := h'.free
  taken := by
    obtain ⟨new, rfl, howns⟩ := h.taken
    obtain ⟨new', rfl, howns'⟩ := h'.taken
    refine ⟨new ++ new', (List.append_assoc ..).symm, fun p => ?_⟩
    rw [howns', howns, List.mem_append, or_assoc]
  kept hpath := h'.kept (h.kept hpath)
  paths hpath := (h'.paths hpath).elim h.paths .inr
  entries k hk := by
    rw [h'.entries k hk, h.entries k hk]
    split <;> rfl
  frame a ha := by
    rw [h'.frame a ha]
    exact h.frame a fun p hp => ha p (h'.owns hp)
  kernelPagetable := h'.kernelPagetable.trans h.kernelPagetable

theorem apart (h : Rewrites va pte m m' nodes nodes' pages pages')
    (hbefore : Apart m nodes pages) : Apart m' nodes' pages' where
  tree := h.tree
  free := h.free
  table p hp := by
    obtain ⟨new, rfl, -⟩ := h.taken
    exact hbefore.table p (List.mem_append_right _ hp)
  apart p hp := by
    obtain ⟨new, rfl, howns⟩ := h.taken
    rcases (howns p).mp hp with hold | hnew
    · exact fun hfree => hbefore.apart p hold (List.mem_append_right _ hfree)
    · exact fun hfree => (List.disjoint_of_nodup_append hbefore.free.nodup) hnew hfree

/-- The pages of everybody else are what they were. -/
theorem page_frame (h : Rewrites va pte m m' nodes nodes' pages pages') {q : Word}
    (hq : Aligned q) (hother : ¬ Radix.Owns nodes' q) {a : Word}
    (ha : InPage q a) : m'.word a = m.word a := by
  refine h.frame a fun p hp hin => hother ?_
  obtain ⟨path, hpath⟩ := hp
  rw [inPage_unique hq (h.tree.table hpath).1 ha hin]
  exact ⟨path, hpath⟩

end Rewrites

/-! ## One missing table -/

section Grow

variable {m : Memory} {nodes : Tables} {rest : List Word} {path : List (Fin 512)}
  {pt : Word} {i : Fin 512}

/-- Memory after `walk_create` has linked a fresh table below `pt[i]`. -/
def Memory.linkTable (m : Memory) (pt : Word) (i : Fin 512) : Memory :=
  (m.pop.fill m.freelist 0 pgSize).store (cell pt i) (pa2pte m.freelist ||| pteV)

theorem linkTable_new (hnew : Aligned m.freelist) (hpt : Aligned pt)
    (hne : m.freelist ≠ pt) (j : Fin 512) :
    (m.linkTable pt i).page m.freelist j = 0 := by
  rw [Memory.linkTable, page_store _ hpt hnew, if_neg fun h => hne h.1,
    page_fill_self _ hnew]
  decide

theorem linkTable_link (hpt : Aligned pt) :
    (m.linkTable pt i).page pt i = sv39.link m.freelist := by
  rw [Memory.linkTable, page_store _ hpt hpt, if_pos ⟨rfl, rfl⟩]
  rfl

theorem linkTable_other (hnew : Aligned m.freelist) (hpt : Aligned pt) {q : Word}
    (hq : Aligned q) (hne : q ≠ m.freelist) {j : Fin 512}
    (hhere : ¬ (q = pt ∧ j = i)) :
    (m.linkTable pt i).page q j = m.page q j := by
  rw [Memory.linkTable, page_store _ hpt hq, if_neg hhere,
    page_fill_other _ hnew hq hne, page_pop_other _ hnew hq hne]

theorem linkTable_word (hpt : Aligned pt) {a : Word}
    (hnew : ¬ InPage m.freelist a) (hin : ¬ InPage pt a) :
    (m.linkTable pt i).word a = m.word a := by
  have hcell : a ≠ cell pt i := by
    rintro rfl
    exact hin (inPage_cell hpt i)
  rw [Memory.linkTable, Memory.store_other _ _ hcell, Memory.fill_out _ _ hnew,
    Memory.pop_word _ hnew]

theorem linkTable_rewrites (h : Apart m nodes (m.freelist :: rest)) {va : Word}
    {level : Nat} (hlevel : level < 2)
    (hpt : nodes (tablePath va (level + 1)) = some pt)
    (hnone : nodes (tablePath va level) = none) :
    Rewrites va (pteOf m nodes va) m (m.linkTable pt (vpn va (level + 1))) nodes
      (Function.update nodes (tablePath va level) (some m.freelist))
      (m.freelist :: rest) rest := by
  have htable := h.table m.freelist (by simp)
  have hfresh : ¬ Radix.Owns nodes m.freelist :=
    fun howns => h.apart _ howns (by simp)
  have hptTable := h.tree.table hpt
  have hne : m.freelist ≠ pt := fun heq => hfresh ⟨_, heq ▸ hpt⟩
  have hlen := @tablePath_length va (level + 1) (by omega)
  have hpath := @tablePath_succ va level (by omega)
  have hempty := linkTable_new (i := vpn va (level + 1)) htable.1 hptTable.1 hne
  have hsame : ∀ q, Radix.Owns nodes q → ∀ j, ¬ (q = pt ∧ j = vpn va (level + 1)) →
      (m.linkTable pt (vpn va (level + 1))).page q j = m.page q j := by
    rintro q ⟨path', hq⟩ j hhere
    refine linkTable_other htable.1 hptTable.1 (h.tree.table hq).1 ?_ hhere
    rintro rfl
    exact hfresh ⟨_, hq⟩
  have hgrow := h.tree.grow hpt (by omega) (hpath ▸ hnone) htable hfresh
    (linkTable_link hptTable.1) hempty hsame
  rw [← hpath] at hgrow
  have howns := fun p => Radix.owns_update (p := p) (q := m.freelist) hnone
  refine ⟨hgrow, ?_, ⟨[m.freelist], rfl, by simpa using howns⟩,
    Radix.kept_update hnone, ?_, ?_, ?_, rfl⟩
  · refine h.free.pop.frame rfl fun q hq => ?_
    have hqTable := h.table q (by simp [hq])
    have hqne : q ≠ m.freelist := fun heq =>
      (List.nodup_cons.mp h.free.nodup).1 (heq ▸ hq)
    have hself := inPage_self hqTable.1
    have hnotin : ¬ InPage m.freelist q := fun hin =>
      hqne (inPage_unique hqTable.1 htable.1 hself hin)
    have hnotpt : ¬ InPage pt q := fun hin =>
      h.apart q ⟨_, inPage_unique hptTable.1 hqTable.1 hin hself ▸ hpt⟩ (by simp [hq])
    rw [linkTable_word hptTable.1 hnotin hnotpt, Memory.pop_word _ hnotin]
  · intro path' p hp
    rcases Radix.node_update hp with ⟨heq, -⟩ | hbefore
    · exact .inr ⟨level, hlevel, heq⟩
    · exact .inl hbefore
  · intro k hk
    have hentry := h.tree.entry_grow (q := m.freelist) hpt (by omega)
      (hpath ▸ hnone) hempty hsame hk
    rw [← hpath] at hentry
    rw [hentry]
    split
    · next heq => rw [heq, pteOf]
    · rfl
  · intro a ha
    exact linkTable_word hptTable.1 (ha _ ((howns _).mpr (.inr rfl)))
      (ha _ ((howns _).mpr (.inl ⟨_, hpt⟩)))

end Grow

/-! ## `walk_create` -/

section Create

variable {m : Memory} {nodes : Tables} {pages : List Word} {va : Word}

theorem pteAddressOf_of_node {p : Word} (h : nodes (tablePath va 0) = some p) :
    pteAddressOf nodes va = cell p (vpn va 0) := by
  simp [pteAddressOf, h]

/-- How many of the tables for the levels below `level` are not there. -/
def missing (nodes : Tables) (va : Word) : Nat → Nat
  | 0 => 0
  | level + 1 =>
      missing nodes va level + if nodes (tablePath va level) = none then 1 else 0

theorem missing_le (nodes : Tables) (va : Word) (level : Nat) :
    missing nodes va level ≤ level := by
  induction level with
  | zero => exact le_refl 0
  | succ level ih =>
      rw [missing]
      split <;> omega

theorem missing_update {p : Word} {level level' : Nat} (h : level ≤ level')
    (hlevel : level' ≤ 2) :
    missing (Function.update nodes (tablePath va level') (some p)) va level =
      missing nodes va level := by
  induction level with
  | zero => rfl
  | succ level ih =>
      have hne : tablePath va level ≠ tablePath va level' := by
        intro heq
        have hlen := congrArg List.length heq
        rw [tablePath_length va (by omega), tablePath_length va hlevel] at hlen
        omega
      rw [missing, missing, ih (by omega), Function.update_of_ne hne]

/-- `walk_create` finds or makes the tables on the way, or the allocator panics
because fewer pages are free than tables are missing. -/
theorem exec_walkCreateFrom (h : Apart m nodes pages) {level : Nat} {pt : Word}
    (hlevel : level ≤ 2) (hpt : nodes (tablePath va level) = some pt) :
    (∃ m' nodes' pages' p,
      exec (walkCreateFrom va level pt) m = .ok (cell p (vpn va 0), m') ∧
        nodes' (tablePath va 0) = some p ∧
        Rewrites va (pteOf m nodes va) m m' nodes nodes' pages pages') ∨
      (exec (walkCreateFrom va level pt) m = .error (.panic "alloc_page") ∧
        pages.length < missing nodes va level) := by
  induction level generalizing m nodes pages pt with
  | zero =>
      exact .inl ⟨m, nodes, pages, pt, by simp [walkCreateFrom, pteAddress_eq], hpt,
        .refl h va⟩
  | succ level ih =>
      have hlen := tablePath_length va hlevel
      have hinner := h.tree.inner hpt (by omega) (vpn va (level + 1))
      rw [← tablePath_succ va hlevel] at hinner
      cases hnode : nodes (tablePath va level) with
      | some q =>
          have hlink : m.word (cell pt (vpn va (level + 1))) = sv39.link q := by
            rw [hnode] at hinner
            exact hinner
          have hvalid : ¬ sv39.link q &&& pteV = 0#64 := sv39.link_valid q
          have htarget : pte2pa (sv39.link q) = q :=
            sv39.target_link q (h.tree.table hnode)
          have hstep : exec (walkCreateFrom va (level + 1) pt) m =
              exec (walkCreateFrom va level q) m := by
            simp [walkCreateFrom, pteAddress_eq, hlink, hvalid, htarget]
          rw [hstep]
          refine (ih h (by omega) hnode).imp id fun hempty => ⟨hempty.1, ?_⟩
          rw [missing]
          omega
      | none =>
          have hmissing : missing nodes va (level + 1) = missing nodes va level + 1 := by
            rw [missing, if_pos hnode]
          have hzero : m.word (cell pt (vpn va (level + 1))) = 0 := by
            rw [hnode] at hinner
            exact hinner
          by_cases hfree : m.freelist = 0
          · have hpages : pages = [] := by
              have hchain := h.free.chain
              rw [hfree] at hchain
              exact hchain.eq_nil_iff.mp rfl
            refine .inr ⟨?_, by simp [hpages, hmissing]⟩
            simp [walkCreateFrom, pteAddress_eq, hzero, exec_allocPage_empty hfree]
          · obtain ⟨rest, rfl⟩ := h.free.exists_cons hfree
            have hgrown := linkTable_rewrites h (show level < 2 by omega) hpt hnode
            have hne : ¬ m.freelist = 0#64 := hfree
            have htable := h.table m.freelist (by simp)
            have hlink : (m.linkTable pt (vpn va (level + 1))).word
                (cell pt (vpn va (level + 1))) = sv39.link m.freelist :=
              linkTable_link (h.tree.table hpt).1
            have hstep : exec (walkCreateFrom va (level + 1) pt) m =
                exec (walkCreateFrom va level m.freelist)
                  (m.linkTable pt (vpn va (level + 1))) := by
              have htarget : pte2pa (pa2pte m.freelist ||| pteV) = m.freelist :=
                sv39.target_link _ htable
              simp [walkCreateFrom, pteAddress_eq, hzero, exec_allocPage hfree, hne,
                Memory.linkTable, htarget]
            rw [hstep]
            rcases ih (hgrown.apart h) (by omega) (Function.update_self ..) with
              ⟨m', nodes', pages', p, hexec, hp, hrewrites⟩ | ⟨hexec, hlength⟩
            · refine .inl ⟨m', nodes', pages', p, hexec, hp, ?_⟩
              have hsame := hgrown.entries (key va) rfl
              rw [if_pos rfl] at hsame
              rw [pteOf, hsame] at hrewrites
              exact hgrown.trans hrewrites
            · refine .inr ⟨hexec, ?_⟩
              rw [missing_update (le_refl level) (by omega)] at hlength
              simp only [List.length_cons]
              omega

theorem exec_walkCreate (h : Apart m nodes pages) {pt : Word}
    (hroot : nodes [] = some pt) (va : Word) :
    (∃ m' nodes' pages' p,
      exec (walkCreate pt va) m = .ok (cell p (vpn va 0), m') ∧
        nodes' (tablePath va 0) = some p ∧
        Rewrites va (pteOf m nodes va) m m' nodes nodes' pages pages') ∨
      (exec (walkCreate pt va) m = .error (.panic "alloc_page") ∧
        pages.length < missing nodes va 2) :=
  exec_walkCreateFrom h (le_refl 2) hroot

end Create

/-! ## Writing a level-0 entry -/

section Entry

variable {m : Memory} {nodes : Tables} {pages : List Word} {va : Word}

theorem store_rewrites (h : Apart m nodes pages) {p pte : Word}
    (hp : nodes (tablePath va 0) = some p) (hpte : pte = 0 ∨ sv39.Leaf pte) :
    Rewrites va pte m (m.store (cell p (vpn va 0)) pte) nodes nodes pages pages := by
  have hpTable := h.tree.table hp
  have hsame : ∀ q, Radix.Owns nodes q → ∀ j, ¬ (q = p ∧ j = vpn va 0) →
      (m.store (cell p (vpn va 0)) pte).page q j = m.page q j := by
    rintro q ⟨path, hq⟩ j hhere
    rw [page_store _ hpTable.1 (h.tree.table hq).1, if_neg hhere]
  have hhere : (m.store (cell p (vpn va 0)) pte).page p (vpn va 0) = pte := by
    rw [page_store _ hpTable.1 hpTable.1, if_pos ⟨rfl, rfl⟩]
  have hother : ∀ a, ¬ InPage p a →
      (m.store (cell p (vpn va 0)) pte).word a = m.word a := by
    intro a ha
    refine m.store_other pte ?_
    rintro rfl
    exact ha (inPage_cell hpTable.1 _)
  refine ⟨h.tree.write hp rfl (hhere.symm ▸ hpte) hsame, ?_, ⟨[], rfl, by simp⟩, id,
    .inl, fun k _ => ?_, fun a ha => hother a (ha p ⟨_, hp⟩), rfl⟩
  · refine h.free.frame rfl fun q hq => hother q fun hin => ?_
    have hq' := (h.table q hq).1
    have heq := inPage_unique hpTable.1 hq' hin (inPage_self hq')
    exact h.apart q ⟨_, heq ▸ hp⟩ hq
  · rw [h.tree.entry_write hp hsame, hhere]
    rfl

/-- `perm` as every caller passes it: some of R, W, X, U, and one of the first
three. -/
def Perm (perm : Word) : Prop :=
  perm &&& ~~~(pteRWX ||| pteU) = 0 ∧ perm &&& pteRWX ≠ 0

instance (perm : Word) : Decidable (Perm perm) :=
  inferInstanceAs (Decidable (_ ∧ _))

/-- The entry `map_page` writes. -/
def leafPte (pa perm : Word) : Word := pa2pte pa ||| perm ||| pteV

theorem Perm.flags_lt {perm : Word} (h : Perm perm) :
    (perm ||| pteV).toNat < 2 ^ 10 := by
  have hmask : perm = perm &&& (pteRWX ||| pteU) := by
    have hsplit : ∀ mask, perm &&& mask ||| perm &&& ~~~mask = perm := by
      intro mask
      ext i hi
      simp only [BitVec.getElem_or, BitVec.getElem_and, BitVec.getElem_not]
      cases perm[i] <;> cases mask[i] <;> rfl
    have hperm := hsplit (pteRWX ||| pteU)
    rw [h.1] at hperm
    simpa using hperm.symm
  have hle : perm.toNat ≤ (pteRWX ||| pteU).toNat := by
    rw [hmask, BitVec.toNat_and]
    exact Nat.and_le_right
  rw [BitVec.toNat_or]
  refine Nat.or_lt_two_pow (lt_of_le_of_lt hle ?_) ?_ <;> decide

theorem leafPte_eq (pa perm : Word) : leafPte pa perm = pa2pte pa ||| (perm ||| pteV) :=
  BitVec.or_assoc ..

theorem leafPte_flags {pa perm : Word} (h : Perm perm) :
    pteFlags (leafPte pa perm) = perm ||| pteV := by
  rw [leafPte_eq]
  exact pteFlags_pa2pte h.flags_lt

theorem leafPte_pa {pa perm : Word} (h : Perm perm) (hpa : Aligned pa)
    (hlt : pa.toNat < 2 ^ 56) : pte2pa (leafPte pa perm) = pa := by
  rw [leafPte_eq]
  exact pte2pa_pa2pte hpa hlt h.flags_lt

theorem leafPte_valid (pa perm : Word) : leafPte pa perm &&& pteV ≠ 0 := by
  intro hzero
  have hbit := congrArg (·.getLsbD 0) hzero
  simp [leafPte, pteV] at hbit

theorem leafPte_rwx {pa perm : Word} (hperm : perm &&& pteRWX ≠ 0) :
    leafPte pa perm &&& pteRWX ≠ 0 := by
  intro hzero
  refine hperm (BitVec.eq_of_getLsbD_eq fun i hi => ?_)
  have hbit : (leafPte pa perm &&& pteRWX).getLsbD i = false := by
    rw [hzero]
    simp
  have hgoal : (perm &&& pteRWX).getLsbD i = false := by
    rw [BitVec.getLsbD_and] at hbit ⊢
    cases hrwx : pteRWX.getLsbD i with
    | false => exact Bool.and_false _
    | true =>
        rw [hrwx, Bool.and_true, leafPte, BitVec.getLsbD_or, BitVec.getLsbD_or] at hbit
        cases hperm : perm.getLsbD i with
        | false => rfl
        | true => simp [hperm] at hbit
  rw [hgoal]
  simp

/-- `map_page` of an unmapped page sets its entry, or the allocator panics. -/
theorem exec_mapPage (h : Apart m nodes pages) {pt pa perm : Word}
    (hroot : nodes [] = some pt) (hva : Aligned va) (hpa : Aligned pa)
    (hunmapped : pteOf m nodes va &&& pteV = 0) :
    (∃ m' nodes' pages', exec (mapPage pt va pa perm) m = .ok (0, m') ∧
      (∃ p, nodes' (tablePath va 0) = some p) ∧
      Rewrites va (leafPte pa perm) m m' nodes nodes' pages pages') ∨
      (exec (mapPage pt va pa perm) m = .error (.panic "alloc_page") ∧
        pages.length < missing nodes va 2) := by
  have hva' : va % pgSize = 0#64 := hva
  have hpa' : pa % pgSize = 0#64 := hpa
  rcases exec_walkCreate h hroot va with
    ⟨m', nodes', pages', p, hexec, hp, hrewrites⟩ | ⟨hexec, hlength⟩
  · have hword : m'.word (cell p (vpn va 0)) = pteOf m nodes va := by
      have hsame := hrewrites.entries (key va) rfl
      rw [if_pos rfl] at hsame
      rw [← hsame, key, Radix.entry_of_node hp]
      rfl
    have hne : ¬ cell p (vpn va 0) = 0#64 := cell_ne_zero (hrewrites.tree.table hp) _
    have hstore := store_rewrites (hrewrites.apart h) hp (.inr (leafPte_valid pa perm))
    refine .inl ⟨_, nodes', pages', ?_, ⟨p, hp⟩, hrewrites.trans hstore⟩
    have hunmapped' : pteOf m nodes va &&& pteV = 0#64 := hunmapped
    simp [mapPage, hva', hpa', hexec, hne, hword, hunmapped', leafPte]
  · refine .inr ⟨?_, hlength⟩
    simp [mapPage, hva', hpa', hexec]

theorem valid_ne_zero {pte : Word} (h : pte &&& pteV ≠ 0) : pte ≠ 0 := by
  rintro rfl
  exact h (by simp)

/-- `unmap_page` of a mapped page clears its entry. -/
theorem exec_unmapPage (h : Apart m nodes pages) {pt : Word}
    (hroot : nodes [] = some pt) (hmapped : pteOf m nodes va &&& pteV ≠ 0) :
    ∃ m', exec (unmapPage pt va) m = .ok ((), m') ∧
      Rewrites va 0 m m' nodes nodes pages pages := by
  have hlookup := exec_walkLookup h.tree hroot va
  rcases pteAddressOf_spec h.tree va with ⟨-, hzero⟩ | ⟨hne, hword⟩
  · exact absurd hzero (valid_ne_zero hmapped)
  · cases hnode : nodes (tablePath va 0) with
    | none => simp [pteAddressOf, hnode] at hne
    | some p =>
        rw [pteAddressOf_of_node hnode] at hlookup hne hword
        refine ⟨_, ?_, store_rewrites h hnode (.inl rfl)⟩
        have hne' : ¬ cell p (vpn va 0) = 0#64 := hne
        have hmapped' : ¬ pteOf m nodes va &&& pteV = 0#64 := hmapped
        simp [unmapPage, hlookup, hne', hword, hmapped']

end Entry

end Xv6Kernel.Mm
