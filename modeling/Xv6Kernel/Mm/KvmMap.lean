import Xv6Kernel.Mm.MapCalls

/-!
# What `kvmmap` maps

The loop goes over the pages that meet the range.  It rounds the virtual address down
and leaves the physical address as it is.
-/

namespace Xv6Kernel.Mm

open Xv6Kernel.Foundation

variable {m m' : Memory} {nodes : Tables} {pages : List Word} {root va pa sz perm : Word}

/-! ## Translation -/

/-- The physical address and the flags under which the page table has `va`. -/
def translate (m : Memory) (root va : Word) : Option (Word × Word) :=
  let pte := entryAt m root va
  if pte &&& pteV ≠ 0 ∧ pte &&& pteRWX ≠ 0 then
    some (pte2pa pte + va % pgSize, pteFlags pte)
  else none

/-- The macros lose nothing of a page-aligned address. -/
theorem pte2pa_or {flags : Word} (haligned : Aligned pa) (hflags : flags.toNat < 2 ^ 10) :
    pte2pa (pa2pte pa ||| flags) = pa := by
  rw [aligned_iff] at haligned
  have hlt := pa.isLt
  apply BitVec.eq_of_toNat_eq
  simp [pte2pa, BitVec.toNat_shiftLeft, BitVec.toNat_ushiftRight,
    Nat.shiftLeft_eq, Nat.shiftRight_eq_div_pow, pa2pte_or_toNat hflags]
  omega

/-- `perm` lies in the flags of an entry and lets the page be read, written or
executed. -/
structure Flags (perm : Word) : Prop where
  lt : perm.toNat < 2 ^ 10
  rwx : perm &&& pteRWX ≠ 0

theorem Flags.valid_lt (h : Flags perm) : (perm ||| pteV).toNat < 2 ^ 10 := by
  rw [BitVec.toNat_or]
  exact Nat.or_lt_two_pow h.lt (by decide)

theorem translate_leaf {page : Word} (hperm : Flags perm) (hpa : Aligned pa)
    (hentry : entryAt m root page = leafPte pa perm) :
    translate m root page = some (pa + page % pgSize, perm ||| pteV) := by
  have hleaf : leafPte pa perm &&& pteV ≠ 0 ∧ leafPte pa perm &&& pteRWX ≠ 0 :=
    ⟨leafPte_valid pa perm, leafPte_rwx hperm.rwx⟩
  rw [translate, hentry, if_pos hleaf, leafPte_eq, pte2pa_or hpa hperm.valid_lt,
    pteFlags_pa2pte hperm.valid_lt]

/-! ## The loop -/

theorem add_pgSize_toNat {a last : Word} (ha : Aligned a) (hlast : Aligned last)
    (hle : a.toNat ≤ last.toNat) (hne : a ≠ last) :
    (a + pgSize).toNat = a.toNat + 4096 ∧ a.toNat + 4096 ≤ last.toNat := by
  rw [aligned_iff] at ha hlast
  have hneNat : a.toNat ≠ last.toNat := fun heq => hne (BitVec.eq_of_toNat_eq heq)
  have hlt := last.isLt
  rw [BitVec.toNat_add, show pgSize.toNat = 4096 by decide]
  omega

/-- If the loop comes back it has mapped the pages from `a` to `last` and no other. -/
theorem kvmmapLoop_ok {last : Word} (hlast : Aligned last)
    (hmax : last.toNat < 2 ^ 39) {fuel : Nat} {a : Word} (h : Apart m nodes pages)
    (hroot : nodes [] = some root) (ha : Aligned a) (hle : a.toNat ≤ last.toNat)
    (hunmapped : ∀ b, Aligned b → a.toNat ≤ b.toNat → b.toNat ≤ last.toNat →
      pteOf m nodes b &&& pteV = 0)
    (hexec : exec (kvmmapLoop root last perm fuel a pa) m = .ok ((), m')) :
    Aligned pa ∧ ∃ nodes' pages', Apart m' nodes' pages' ∧ nodes' [] = some root ∧
      ∀ b, Aligned b → b.toNat < 2 ^ 39 → pteOf m' nodes' b =
        if a.toNat ≤ b.toNat ∧ b.toNat ≤ last.toNat then leafPte (pa + (b - a)) perm
        else pteOf m nodes b := by
  induction fuel generalizing m nodes pages a pa with
  | zero => simp [kvmmapLoop] at hexec
  | succ fuel ih =>
      obtain ⟨r, m₁, hmap, hrest⟩ := exec_bind_ok.mp hexec
      rcases mapPage_cases h hroot hmap with
        ⟨rfl, -, -⟩ | ⟨rfl, -, hpa, -, nodes₁, pages₁, hr⟩
      · simp at hrest
      · have hentry : ∀ b, Aligned b → b.toNat < 2 ^ 39 → pteOf m₁ nodes₁ b =
            if b = a then leafPte pa perm else pteOf m nodes b := by
          intro b hb hlt
          rw [pteOf, pteOf, hr.entries _ rfl]
          by_cases heq : b = a
          · rw [if_pos (heq ▸ rfl), if_pos heq]
          · rw [if_neg fun hkey => heq (key_inj hb ha hlt (by omega) hkey), if_neg heq]
        by_cases hdone : a = last
        · -- the last round
          subst hdone
          simp only [ne_eq, not_true_eq_false, if_false, if_true, bind_pure_comp] at hrest
          obtain rfl : m₁ = m' := by simpa using hrest
          refine ⟨hpa, nodes₁, pages₁, hr.apart h, hr.kept hroot, fun b hb hlt => ?_⟩
          rw [hentry b hb hlt]
          by_cases heq : b = a
          · have hnat := congrArg BitVec.toNat heq
            rw [if_pos heq, if_pos (by omega), heq, BitVec.sub_self, BitVec.add_zero]
          · have hneNat : b.toNat ≠ a.toNat := fun hnat => heq (BitVec.eq_of_toNat_eq hnat)
            rw [if_neg heq, if_neg (by omega)]
        · obtain ⟨hnext, hroom⟩ := add_pgSize_toNat ha hlast hle hdone
          have hnextAligned : Aligned (a + pgSize) := by
            rw [aligned_iff] at ha ⊢
            omega
          have hloop : exec (kvmmapLoop root last perm fuel (a + pgSize) (pa + pgSize)) m₁ =
              .ok ((), m') := by simpa [hdone] using hrest
          obtain ⟨-, nodes', pages', h', hroot', hpte⟩ := ih (hr.apart h) (hr.kept hroot)
            hnextAligned (by omega) (fun b hb hlow hhigh => by
              rw [hentry b hb (by omega), if_neg fun heq => by subst heq; omega]
              exact hunmapped b hb (by omega) hhigh) hloop
          refine ⟨hpa, nodes', pages', h', hroot', fun b hb hlt => ?_⟩
          rw [hpte b hb hlt, hentry b hb hlt]
          by_cases heq : b = a
          · have hnat := congrArg BitVec.toNat heq
            rw [if_neg (by omega), if_pos heq, if_pos (by omega), heq, BitVec.sub_self,
              BitVec.add_zero]
          · have hneNat : b.toNat ≠ a.toNat := fun hnat => heq (BitVec.eq_of_toNat_eq hnat)
            have hshift : pa + pgSize + (b - (a + pgSize)) = pa + (b - a) := by
              bv_omega
            rw [if_neg heq, hshift]
            by_cases hin : (a + pgSize).toNat ≤ b.toNat ∧ b.toNat ≤ last.toNat
            · rw [if_pos hin, if_pos (by omega)]
            · rw [aligned_iff] at ha hb
              rw [if_neg hin, if_neg (by omega)]

/-! ## kvmmap -/

/-- Some byte of the range from `va` on lies in the page. -/
def Meets (va sz page : Word) : Prop := ∃ o < sz, pgRoundDown (va + o) = page

/-- Every byte of the range goes to its counterpart, and other pages stay as they are. -/
structure ExactMap (m m' : Memory) (root va pa sz perm : Word) : Prop where
  inside : ∀ o, o < sz → translate m' root (va + o) = some (pa + o, perm ||| pteV)
  outside : ∀ page, Aligned page → page.toNat < 2 ^ 39 → ¬ Meets va sz page →
    ∀ o, o < pgSize → translate m' root (page + o) = translate m root (page + o)

theorem pgRoundDown_add {page o : Word} (hpage : Aligned page) (ho : o < pgSize) :
    pgRoundDown (page + o) = page := by
  have hlt := page.isLt
  rw [aligned_iff] at hpage
  rw [BitVec.lt_def, show pgSize.toNat = 4096 by decide] at ho
  apply BitVec.eq_of_toNat_eq
  rw [pgRoundDown_toNat, BitVec.toNat_add]
  omega

theorem meets_iff {page : Word} (hpage : Aligned page) (hsz : 0 < sz.toNat)
    (hmax : va.toNat + sz.toNat ≤ 2 ^ 38) : Meets va sz page ↔
      (pgRoundDown va).toNat ≤ page.toNat ∧ page.toNat ≤ (pgRoundDown (va + sz - 1)).toNat := by
  have hone : (1 : Word).toNat = 1 := by decide
  have hlast : (va + sz - 1).toNat = va.toNat + sz.toNat - 1 := by
    rw [BitVec.toNat_sub, BitVec.toNat_add, hone]
    omega
  rw [pgRoundDown_toNat, pgRoundDown_toNat, hlast]
  constructor
  · rintro ⟨o, ho, rfl⟩
    rw [BitVec.lt_def] at ho
    rw [pgRoundDown_toNat, BitVec.toNat_add]
    omega
  · rintro ⟨hlow, hhigh⟩
    rw [aligned_iff] at hpage
    by_cases hstart : page.toNat ≤ va.toNat
    · refine ⟨0#64, by rw [BitVec.lt_def]; exact hsz, ?_⟩
      apply BitVec.eq_of_toNat_eq
      rw [pgRoundDown_toNat, BitVec.add_zero]
      omega
    · refine ⟨page - va, ?_, ?_⟩
      · rw [BitVec.lt_def, BitVec.toNat_sub]
        omega
      · apply BitVec.eq_of_toNat_eq
        rw [pgRoundDown_toNat, BitVec.toNat_add, BitVec.toNat_sub]
        omega

/-- A byte of the range goes where its distance from the start of the first page says. -/
theorem kvmmap_ok (h : Apart m nodes pages) (hroot : nodes [] = some root) (hperm : Flags perm)
    (hsz : 0 < sz) (hmax : va.toNat + sz.toNat ≤ maxVa.toNat)
    (hunmapped : ∀ page, Aligned page → Meets va sz page → entryAt m root page &&& pteV = 0)
    (hexec : exec (kvmmap root va pa sz perm) m = .ok ((), m')) :
    (∀ o, o < sz → translate m' root (va + o) =
      some (pa + (va + o - pgRoundDown va), perm ||| pteV)) ∧
      ∀ page, Aligned page → page.toNat < 2 ^ 39 → ¬ Meets va sz page →
        ∀ o, o < pgSize → translate m' root (page + o) = translate m root (page + o) := by
  have hmaxVa : maxVa.toNat = 2 ^ 38 := by decide
  rw [hmaxVa] at hmax
  have hpos : 0 < sz.toNat := hsz
  have hne : ¬ sz = 0#64 := by
    rintro rfl
    exact absurd hpos (by decide)
  have hmeets : ∀ {page}, Aligned page → (Meets va sz page ↔ _) := fun hpage =>
    meets_iff hpage hpos hmax
  have hbound : (pgRoundDown (va + sz - 1)).toNat < 2 ^ 38 := by
    have hone : (1 : Word).toNat = 1 := by decide
    rw [pgRoundDown_toNat, BitVec.toNat_sub, BitVec.toNat_add, hone]
    omega
  have hle : (pgRoundDown va).toNat ≤ (pgRoundDown (va + sz - 1)).toNat :=
    ((hmeets (pgRoundDown_aligned va)).mp ⟨0#64, hsz, by rw [BitVec.add_zero]⟩).2
  have hloop : exec (kvmmapLoop root (pgRoundDown (va + sz - 1)) perm
      ((pgRoundDown (va + sz - 1) - pgRoundDown va).toNat / 4096 + 1) (pgRoundDown va) pa) m =
      .ok ((), m') := by simpa [kvmmap, hne] using hexec
  obtain ⟨hpa, nodes', pages', h', hroot', hpte⟩ := kvmmapLoop_ok
    (pgRoundDown_aligned _) (by omega) h hroot (pgRoundDown_aligned va) hle
    (fun b hb hlow hhigh => by
      rw [← entryAt_eq h.tree hroot]
      exact hunmapped b hb ((hmeets hb).mpr ⟨hlow, hhigh⟩)) hloop
  have hentry : ∀ va', va'.toNat < 2 ^ 39 →
      (Meets va sz (pgRoundDown va') → entryAt m' root va' =
        leafPte (pa + (pgRoundDown va' - pgRoundDown va)) perm) ∧
      (¬ Meets va sz (pgRoundDown va') → entryAt m' root va' = entryAt m root va') := by
    intro va' hlt
    have haligned := pgRoundDown_aligned va'
    have hdown : (pgRoundDown va').toNat < 2 ^ 39 := by
      rw [pgRoundDown_toNat]
      omega
    have hsame := hpte _ haligned hdown
    rw [pteOf, pteOf, key_pgRoundDown] at hsame
    rw [entryAt_eq h'.tree hroot', entryAt_eq h.tree hroot, pteOf, pteOf, hsame,
      hmeets haligned]
    exact ⟨fun hin => if_pos hin, fun hout => if_neg hout⟩
  refine ⟨fun o ho => ?_, fun page hpage hlt hout o ho => ?_⟩
  · rw [BitVec.lt_def] at ho
    have hva : (va + o).toNat < 2 ^ 39 := by
      rw [BitVec.toNat_add]
      omega
    have hin := (hentry (va + o) hva).1 ⟨o, ho, rfl⟩
    have htarget : Aligned (pa + (pgRoundDown (va + o) - pgRoundDown va)) := by
      have hfirst := aligned_iff.mp (pgRoundDown_aligned va)
      have hpage := aligned_iff.mp (pgRoundDown_aligned (va + o))
      rw [aligned_iff] at hpa ⊢
      rw [BitVec.toNat_add, BitVec.toNat_sub]
      omega
    rw [translate_leaf hperm htarget hin]
    have hsplit : pgRoundDown (va + o) + (va + o) % pgSize = va + o := by
      apply BitVec.eq_of_toNat_eq
      rw [BitVec.toNat_add, pgRoundDown_toNat, BitVec.toNat_umod,
        show pgSize.toNat = 4096 by decide]
      omega
    congr 2
    calc pa + (pgRoundDown (va + o) - pgRoundDown va) + (va + o) % pgSize
        = pa + (pgRoundDown (va + o) + (va + o) % pgSize - pgRoundDown va) := by bv_omega
      _ = pa + (va + o - pgRoundDown va) := by rw [hsplit]
  · have hva : (page + o).toNat < 2 ^ 39 := by
      rw [aligned_iff] at hpage
      rw [BitVec.lt_def, show pgSize.toNat = 4096 by decide] at ho
      rw [BitVec.toNat_add]
      omega
    have hsame := (hentry (page + o) hva).2 (by rwa [pgRoundDown_add hpage ho])
    rw [translate, translate, hsame]

/-- If `kvmmap` comes back, every byte has gone to its counterpart if and only if the
range starts on a page. -/
theorem kvmmap_exact_iff (h : Apart m nodes pages) (hroot : nodes [] = some root)
    (hperm : Flags perm) (hsz : 0 < sz) (hmax : va.toNat + sz.toNat ≤ maxVa.toNat)
    (hunmapped : ∀ page, Aligned page → Meets va sz page → entryAt m root page &&& pteV = 0)
    (hexec : exec (kvmmap root va pa sz perm) m = .ok ((), m')) :
    ExactMap m m' root va pa sz perm ↔ Aligned va := by
  obtain ⟨hinside, houtside⟩ := kvmmap_ok h hroot hperm hsz hmax hunmapped hexec
  constructor
  · intro exact
    have hfirst := (hinside 0#64 hsz).symm.trans (exact.inside 0#64 hsz)
    simp only [Option.some.injEq, Prod.mk.injEq, and_true, BitVec.add_zero] at hfirst
    have hdown : pgRoundDown va = va := by bv_omega
    rw [← hdown]
    exact pgRoundDown_aligned va
  · intro hva
    refine ⟨fun o ho => ?_, houtside⟩
    rw [hinside o ho, pgRoundDown_of_aligned hva]
    congr 3
    rw [BitVec.add_comm va o, BitVec.add_sub_cancel]

theorem exec_kvmmap_threePages (hfirst : pgRoundDown va = 0#64)
    (hlast : pgRoundDown (va + 8#64 - 1#64) = 0#64) : ∃ m m' nodes pages,
    Apart m nodes pages ∧ nodes [] = some kernBase ∧ (∀ va, entryAt m kernBase va = 0) ∧
      exec (kvmmap kernBase va kernBase 8 pteR) m = .ok ((), m') := by
  obtain ⟨m, m', built, hexec, hempty⟩ :=
    exec_map_threePages (fun _ => True) (show Aligned 0 by decide)
  obtain ⟨nodes, pages, h, hroot⟩ := built.apart
  have hmap : exec (mapPage kernBase 0#64 kernBase pteR) m = .ok (0, m') := hexec
  refine ⟨m, m', nodes, pages, h, hroot, hempty, ?_⟩
  simp [kvmmap, kvmmapLoop, hfirst, hlast, hmap]

theorem kvmmap_exact_sample : ∃ m m',
    exec (kvmmap kernBase 0 kernBase 8 pteR) m = .ok ((), m') ∧
    (ExactMap m m' kernBase 0 kernBase 8 pteR ↔ Aligned 0) := by
  obtain ⟨m, m', nodes, pages, h, hroot, hempty, hexec⟩ :=
    exec_kvmmap_threePages (show pgRoundDown 0 = 0#64 by decide) (by decide)
  exact ⟨m, m', hexec, kvmmap_exact_iff h hroot ⟨by decide, by decide⟩ (by decide) (by decide)
    (fun page _ _ => by rw [hempty]; decide) hexec⟩

/-- Eight bytes from address 8 on are mapped eight bytes too far. -/
theorem kvmmap_not_exact : ¬ ∀ m m' nodes pages root va pa sz perm, Apart m nodes pages →
    nodes [] = some root → Flags perm → 0 < sz → va.toNat + sz.toNat ≤ maxVa.toNat →
    (∀ page, Aligned page → Meets va sz page → entryAt m root page &&& pteV = 0) →
    exec (kvmmap root va pa sz perm) m = .ok ((), m') →
    ExactMap m m' root va pa sz perm := by
  intro hclaim
  obtain ⟨m, m', nodes, pages, h, hroot, hempty, hexec⟩ :=
    exec_kvmmap_threePages (show pgRoundDown 8 = 0#64 by decide) (by decide)
  have hunmapped : ∀ page, Aligned page → Meets 8 8 page →
      entryAt m kernBase page &&& pteV = 0 := fun page _ _ => by
    rw [hempty]
    decide
  have hperm : Flags pteR := ⟨by decide, by decide⟩
  have exact := hclaim _ _ _ _ _ _ _ _ _ h hroot hperm (by decide) (by decide) hunmapped hexec
  obtain ⟨hinside, -⟩ := kvmmap_ok h hroot hperm (by decide) (by decide) hunmapped hexec
  have hfirst := (hinside 0 (by decide)).symm.trans (exact.inside 0 (by decide))
  simp only [Option.some.injEq, Prod.mk.injEq, and_true] at hfirst
  exact absurd hfirst (by decide)

end Xv6Kernel.Mm
