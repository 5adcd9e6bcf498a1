import Xv6Kernel.Mm.PageTable

/-!
# What the walks, `map_page` and `unmap_page` do to a page table

A page table is a radix tree of depth 2 over the 512 words of a page.  Each
operation is described once, by `Rewrites`: which tables it adds, which entry it
sets, and that nothing else moves.
-/

namespace Xv6Kernel.Mm

open Xv6Kernel.Foundation

/-! ## The tree a page table is -/

def sv39 : Format Word Word where
  null := 0
  link p := pa2pte p ||| pteV
  valid pte := pte &&& pteV ≠ 0
  target := pte2pa
  Table p := Aligned p ∧ p ≠ 0 ∧ p.toNat < 2 ^ 56
  Leaf pte := pte &&& pteV ≠ 0
  null_invalid := by simp
  link_valid p := by
    rw [pa2pte_or_and (by decide) (by decide)]
    decide
  target_link p hp := pte2pa_pa2pte hp.1 hp.2.2 (by decide)

abbrev Tables := Nodes (Fin 512) Word

/-- The indices taken from the root to the table of a level. -/
def tablePath (va : Word) : Nat → List (Fin 512)
  | 0 => [vpn va 1, vpn va 2]
  | 1 => [vpn va 2]
  | _ => []

def key (va : Word) : List (Fin 512) := vpn va 0 :: tablePath va 0

/-- The level-0 entry of a virtual address; 0 where a table is missing. -/
def pteOf (m : Memory) (nodes : Tables) (va : Word) : Word :=
  Radix.entry sv39 m.page nodes (key va)

theorem tablePath_succ (va : Word) {level : Nat} (h : level + 1 ≤ 2) :
    tablePath va level = vpn va (level + 1) :: tablePath va (level + 1) := by
  match level, h with
  | 0, _ => rfl
  | 1, _ => rfl

theorem tablePath_length (va : Word) {level : Nat} (h : level ≤ 2) :
    (tablePath va level).length = 2 - level := by
  match level, h with
  | 0, _ => rfl
  | 1, _ => rfl
  | 2, _ => rfl

@[simp] theorem key_length (va : Word) : (key va).length = 3 := rfl

theorem lt_maxVa {va : Word} (h : va < maxVa) : va.toNat < 2 ^ 39 := by
  rw [BitVec.lt_def, show maxVa.toNat = 2 ^ 38 by decide] at h
  omega

/-- The three indices are 27 bits; `MAXVA` is one bit less than they reach. -/
theorem key_inj {va va' : Word} (hva : Aligned va) (hva' : Aligned va')
    (hmax : va.toNat < 2 ^ 39) (hmax' : va'.toNat < 2 ^ 39)
    (h : key va = key va') : va = va' := by
  simp only [key, tablePath, vpn, List.cons.injEq, Fin.mk.injEq, and_true] at h
  rw [aligned_iff] at hva hva'
  apply BitVec.eq_of_toNat_eq
  omega

theorem exists_key {k : List (Fin 512)} (hk : k.length = 3) :
    ∃ va, Aligned va ∧ va.toNat < 2 ^ 39 ∧ k = key va := by
  obtain ⟨i, j, l, rfl⟩ : ∃ i j l, k = [i, j, l] := List.length_eq_three.mp hk
  have hi := i.isLt
  have hj := j.isLt
  have hl := l.isLt
  have hlt : (i.val * 2 ^ 12 + j.val * 2 ^ 21 + l.val * 2 ^ 30) < 2 ^ 39 := by omega
  have hnat : (BitVec.ofNat 64 (i.val * 2 ^ 12 + j.val * 2 ^ 21 + l.val * 2 ^ 30)).toNat =
      i.val * 2 ^ 12 + j.val * 2 ^ 21 + l.val * 2 ^ 30 := by
    rw [BitVec.toNat_ofNat]
    omega
  refine ⟨_, ?_, hnat ▸ hlt, ?_⟩
  · rw [aligned_iff, hnat]
    omega
  · simp only [key, tablePath, vpn, hnat, List.cons.injEq, and_true]
    refine ⟨Fin.ext ?_, Fin.ext ?_, Fin.ext ?_⟩ <;> simp only <;> omega

theorem missing_below {m : Memory} {nodes : Tables}
    (h : Radix sv39 2 m.page nodes) {va : Word} {level : Nat} (hlevel : level ≤ 2)
    (hnone : nodes (tablePath va level) = none) :
    nodes (tablePath va 0) = none := by
  induction level with
  | zero => exact hnone
  | succ level ih =>
      refine ih (by omega) ?_
      cases hnode : nodes (tablePath va level) with
      | none => rfl
      | some p =>
          rw [tablePath_succ va hlevel] at hnode
          obtain ⟨q, hq⟩ := h.parent hnode
          rw [hnone] at hq
          cases hq

/-! ## Words of pages under stores and fills -/

section Page

variable (m : Memory) {p q : Word}

@[simp] theorem exec_load (a : Word) : exec (load a) m = .ok (m.word a, m) := by
  simp [load]

@[simp] theorem exec_store (a v : Word) :
    exec (store a v) m = .ok ((), m.store a v) := by
  simp [store]

@[simp] theorem exec_memset (dst : Word) (byte : BitVec 8) (n : Word) :
    exec (memset dst byte n) m = .ok ((), m.fill dst byte n) := by
  simp [memset]

theorem pteAddress_eq (pt va : Word) (level : Nat) :
    pteAddress pt va level = cell pt (vpn va level) := cell_vpn pt va level

theorem page_store (hp : Aligned p) (hq : Aligned q) (i j : Fin 512) (v : Word) :
    (m.store (cell p i) v).page q j = if q = p ∧ j = i then v else m.page q j := by
  by_cases h : q = p ∧ j = i
  · obtain ⟨rfl, rfl⟩ := h
    simp [Memory.page]
  · rw [if_neg h]
    exact m.store_other v fun heq => h (cell_inj hq hp heq)

theorem page_fill_self (hp : Aligned p) (byte : BitVec 8) (i : Fin 512) :
    (m.fill p byte pgSize).page p i = Memory.splat byte :=
  m.fill_in byte (inPage_cell hp i)

theorem page_fill_other (hp : Aligned p) (hq : Aligned q) (hne : q ≠ p)
    (byte : BitVec 8) (i : Fin 512) :
    (m.fill p byte pgSize).page q i = m.page q i :=
  m.fill_out byte fun hin => hne (inPage_unique hq hp (inPage_cell hq i) hin)

theorem page_pop_other (hp : Aligned m.freelist) (hq : Aligned q)
    (hne : q ≠ m.freelist) (i : Fin 512) : m.pop.page q i = m.page q i :=
  page_fill_other { m with freelist := m.word m.freelist } hp hq hne 5 i

end Page

/-! ## `walk_lookup` -/

section Lookup

variable {m : Memory} {nodes : Tables} {va : Word}

/-- The address `walk_lookup` answers with. -/
def pteAddressOf (nodes : Tables) (va : Word) : Word :=
  (nodes (tablePath va 0)).elim 0 fun pt => cell pt (vpn va 0)

theorem exec_walkLookupFrom (h : Radix sv39 2 m.page nodes) {level : Nat}
    {pt : Word} (hlevel : level ≤ 2) (hpt : nodes (tablePath va level) = some pt) :
    exec (walkLookupFrom va level pt) m = .ok (pteAddressOf nodes va, m) := by
  induction level generalizing pt with
  | zero => simp [walkLookupFrom, pteAddress_eq, pteAddressOf, hpt]
  | succ level ih =>
      have hlen := tablePath_length va hlevel
      have hinner := h.inner hpt (by omega) (vpn va (level + 1))
      rw [← tablePath_succ va hlevel] at hinner
      cases hnode : nodes (tablePath va level) with
      | none =>
          have hzero : m.word (cell pt (vpn va (level + 1))) = 0 := by
            rw [hnode] at hinner
            exact hinner
          have hbelow := missing_below h (by omega) hnode
          simp [walkLookupFrom, pteAddress_eq, hzero, pteAddressOf, hbelow]
      | some q =>
          have hlink : m.word (cell pt (vpn va (level + 1))) = sv39.link q := by
            rw [hnode] at hinner
            exact hinner
          have hvalid : ¬ sv39.link q &&& pteV = 0#64 := sv39.link_valid q
          have htarget : pte2pa (sv39.link q) = q :=
            sv39.target_link q (h.table hnode)
          simp [walkLookupFrom, pteAddress_eq, hlink, hvalid, htarget,
            ih (by omega) hnode]

theorem exec_walkLookup (h : Radix sv39 2 m.page nodes) {pt : Word}
    (hroot : nodes [] = some pt) (va : Word) :
    exec (walkLookup pt va) m = .ok (pteAddressOf nodes va, m) :=
  exec_walkLookupFrom h (le_refl 2) hroot

theorem cell_ne_zero {p : Word} (hp : sv39.Table p) (i : Fin 512) :
    cell p i ≠ 0 := by
  intro h
  have hnat := congrArg BitVec.toNat h
  rw [cell_toNat hp.1] at hnat
  apply hp.2.1
  apply BitVec.eq_of_toNat_eq
  have hzero : (0 : Word).toNat = 0 := by decide
  omega

/-- The address found is null exactly when some table is missing, and else
leads to the entry. -/
theorem pteAddressOf_spec (h : Radix sv39 2 m.page nodes) (va : Word) :
    (pteAddressOf nodes va = 0 ∧ pteOf m nodes va = 0) ∨
      (pteAddressOf nodes va ≠ 0 ∧
        m.word (pteAddressOf nodes va) = pteOf m nodes va) := by
  unfold pteOf key
  cases hnode : nodes (tablePath va 0) with
  | none =>
      rw [Radix.entry_of_none hnode]
      exact .inl ⟨by simp [pteAddressOf, hnode], rfl⟩
  | some p =>
      have haddress : pteAddressOf nodes va = cell p (vpn va 0) := by
        simp [pteAddressOf, hnode]
      rw [Radix.entry_of_node hnode, haddress]
      exact .inr ⟨cell_ne_zero (h.table hnode) _, rfl⟩

end Lookup

end Xv6Kernel.Mm
