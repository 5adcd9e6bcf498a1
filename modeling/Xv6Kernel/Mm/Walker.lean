import Xv6Kernel.Mm.KernelSpace

/-!
# The page tables as the hart reads them

Sv39, as the privileged architecture has it: the hart stops at every entry with `R` or
`X`, whatever the level, and checks each access.  Under a tree that serves a map it goes
where the map says.
-/

namespace Xv6Kernel.Mm

open Xv6Kernel.Foundation

/-! ## Sv39 -/

inductive Access
  | fetch | load | store
  deriving DecidableEq, Repr

/-- What of a hart a translation depends on: `satp`, the privilege, and the bits `SUM`
and `MXR` of `sstatus`. -/
structure Walker where
  satp : Word
  user : Bool
  sum : Bool
  mxr : Bool

def satpSv39 : Word := 8 <<< 60

/-- `MAKE_SATP(pagetable)`. -/
def makeSatp (pagetable : Word) : Word := satpSv39 ||| (pagetable >>> 12)

def pteA : Word := 1 <<< 6
def pteD : Word := 1 <<< 7

/-- The hart marks the leaves it has used; `marks` are the ones it has made so far. -/
def Memory.marked (m : Memory) (marks : Word → Word) (address : Word) : Word :=
  let pte := m.word address
  if pte &&& (pteR ||| pteX) = 0 then pte else pte ||| (marks address &&& (pteA ||| pteD))

/-- No access gets past such an entry. -/
def Invalid (pte : Word) : Prop :=
  pte &&& pteV = 0 ∨ (pte &&& pteR = 0 ∧ pte &&& pteW ≠ 0) ∨ pte >>> 54 ≠ 0

instance (pte : Word) : Decidable (Invalid pte) := inferInstanceAs (Decidable (_ ∨ _))

/-- A 39-bit number with its sign extended. -/
def Canonical (va : Word) : Prop := -2 ^ 38 ≤ va.toInt ∧ va.toInt < 2 ^ 38

instance (va : Word) : Decidable (Canonical va) := inferInstanceAs (Decidable (_ ∧ _))

namespace Walker

variable (h : Walker) (access : Access)

/-- The privilege is the one the leaf asks for. -/
def Privileged (pte : Word) : Prop :=
  if h.user then pte &&& pteU ≠ 0 else pte &&& pteU = 0 ∨ (h.sum = true ∧ access ≠ .fetch)

def Permitted (pte : Word) : Prop :=
  match access with
  | .fetch => pte &&& pteX ≠ 0
  | .load => pte &&& pteR ≠ 0 ∨ (h.mxr = true ∧ pte &&& pteX ≠ 0)
  | .store => pte &&& pteW ≠ 0

instance (pte : Word) : Decidable (h.Privileged access pte) :=
  inferInstanceAs (Decidable (if h.user then pte &&& pteU ≠ 0
    else pte &&& pteU = 0 ∨ (h.sum = true ∧ access ≠ .fetch)))

instance (pte : Word) : Decidable (h.Permitted access pte) :=
  match access with
  | .fetch => inferInstanceAs (Decidable (_ ≠ _))
  | .load => inferInstanceAs (Decidable (_ ∨ _))
  | .store => inferInstanceAs (Decidable (_ ≠ _))

/-- Where a leaf of a level leads; one that maps a large page has to be aligned to it. -/
def leaf (va : Word) (level : Nat) (pte : Word) : Option Word :=
  let offset : Word := (1 <<< (12 + 9 * level)) - 1
  if h.Privileged access pte ∧ h.Permitted access pte ∧ pte2pa pte &&& offset = 0 then
    some (pte2pa pte + (va &&& offset))
  else none

/-- The walk from a level down; `none` is a page fault. -/
def walk (word : Word → Word) (va : Word) : Nat → Word → Option Word
  | 0, table =>
      let pte := word (pteAddress table va 0)
      if Invalid pte ∨ pte &&& (pteR ||| pteX) = 0 then none
      else h.leaf access va 0 pte
  | level + 1, table =>
      let pte := word (pteAddress table va (level + 1))
      if Invalid pte then none
      else if pte &&& (pteR ||| pteX) ≠ 0 then h.leaf access va (level + 1) pte
      else if pte &&& (pteA ||| pteD ||| pteU) ≠ 0 then none
      else walk word va level (pte2pa pte)

/-- What an access to an address goes to; the modes are `Bare` and `Sv39`. -/
def translate (word : Word → Word) (va : Word) : Option Word :=
  if h.satp >>> 60 = 0 then some va
  else if h.satp >>> 60 = 8 ∧ Canonical va then
    h.walk access word va 2 ((h.satp &&& 0xFFFFFFFFFFF) <<< 12)
  else none

/-- A mapping with these permissions can be used. -/
def Grants (perm : Word) : Prop :=
  ¬ (perm &&& pteR = 0 ∧ perm &&& pteW ≠ 0) ∧ h.Privileged access perm ∧
    h.Permitted access perm

instance (perm : Word) : Decidable (h.Grants access perm) := inferInstanceAs (Decidable (_ ∧ _))

/-- Where the hart gets under a map. -/
def reach (va : Word) (target : Word × Word) : Option Word :=
  if h.Grants access target.2 then some (target.1 + (va &&& 0xFFF)) else none

end Walker

/-! ## Entries of the kernel's tables -/

section Entries

variable {pa perm marks pte : Word}

theorem makeSatp_toNat {root : Word} (hroot : sv39.Table root) :
    (makeSatp root).toNat = 2 ^ 63 + root.toNat / 4096 := by
  have hlt := hroot.2.2
  have hshift : (root >>> 12).toNat = root.toNat / 4096 := by
    rw [BitVec.toNat_ushiftRight, Nat.shiftRight_eq_div_pow]
  have hmode : satpSv39.toNat = 2 ^ 63 * 1 := by decide
  rw [makeSatp, BitVec.toNat_or, hshift, hmode, ← Nat.two_pow_add_eq_or_of_lt (by omega),
    Nat.mul_one]

theorem makeSatp_mode {root : Word} (hroot : sv39.Table root) : makeSatp root >>> 60 = 8 := by
  have hlt := hroot.2.2
  apply BitVec.eq_of_toNat_eq
  rw [BitVec.toNat_ushiftRight, makeSatp_toNat hroot, Nat.shiftRight_eq_div_pow]
  simp only [BitVec.reduceToNat]
  omega

theorem makeSatp_root {root : Word} (hroot : sv39.Table root) :
    (makeSatp root &&& 0xFFFFFFFFFFF) <<< 12 = root := by
  obtain ⟨haligned, -, hlt⟩ := id hroot
  rw [aligned_iff] at haligned
  apply BitVec.eq_of_toNat_eq
  have hmask : (0xFFFFFFFFFFF : Word).toNat = 2 ^ 44 - 1 := by decide
  rw [BitVec.toNat_shiftLeft, BitVec.toNat_and, makeSatp_toNat hroot, hmask,
    Nat.and_two_pow_sub_one_eq_mod, Nat.shiftLeft_eq]
  omega

/-- A leaf that the hart may have marked. -/
def markedPte (pa perm marks : Word) : Word :=
  pa2pte pa ||| (perm ||| pteV ||| (marks &&& (pteA ||| pteD)))

theorem markedFlags_lt (hperm : Perm perm) :
    (perm ||| pteV ||| (marks &&& (pteA ||| pteD))).toNat < 2 ^ 10 := by
  rw [BitVec.toNat_or]
  refine Nat.or_lt_two_pow hperm.flags_lt ?_
  rw [BitVec.toNat_and]
  exact Nat.and_le_right.trans_lt (by decide)

theorem markedPte_and {flag : Word} (hperm : Perm perm) (hflag : flag &&& 0x3FF = flag)
    (hown : (pteV ||| (pteA ||| pteD)) &&& flag = 0) :
    markedPte pa perm marks &&& flag = perm &&& flag := by
  rw [markedPte, pa2pte_or_and (markedFlags_lt hperm) hflag]
  ext i hi
  have hbit := congrArg (fun w : Word => w[i]) hown
  simp only [BitVec.getElem_and, BitVec.getElem_or] at hbit ⊢
  revert hbit
  cases flag[i] <;> cases perm[i] <;> cases pteV[i] <;> cases pteA[i] <;> cases pteD[i] <;>
    cases marks[i] <;> simp

theorem markedPte_valid (hperm : Perm perm) : markedPte pa perm marks &&& pteV ≠ 0 := by
  rw [markedPte, pa2pte_or_and (markedFlags_lt hperm) (by decide)]
  have hbit : (perm ||| pteV ||| (marks &&& (pteA ||| pteD))) &&& pteV = pteV := by
    ext i hi
    simp only [BitVec.getElem_and, BitVec.getElem_or]
    cases pteV[i] <;> simp
  rw [hbit]
  decide

theorem markedPte_reserved (hperm : Perm perm) (hlt : pa.toNat < 2 ^ 56) :
    markedPte pa perm marks >>> 54 = 0 := by
  have hflags : (perm ||| pteV ||| (marks &&& (pteA ||| pteD))).toNat < 2 ^ 10 :=
    markedFlags_lt hperm
  apply BitVec.eq_of_toNat_eq
  rw [markedPte, BitVec.toNat_ushiftRight, pa2pte_or_toNat hflags, Nat.shiftRight_eq_div_pow]
  simp only [BitVec.reduceToNat]
  omega

theorem markedPte_pa (hperm : Perm perm) (hpa : Aligned pa) (hlt : pa.toNat < 2 ^ 56) :
    pte2pa (markedPte pa perm marks) = pa :=
  pte2pa_pa2pte hpa hlt (markedFlags_lt hperm)

theorem marked_leafPte {m : Memory} {marks : Word → Word} {address : Word}
    (hword : m.word address = leafPte pa perm) :
    ∃ k, m.marked marks address = markedPte pa perm k := by
  unfold Memory.marked
  simp only [hword]
  split
  · refine ⟨0, ?_⟩
    rw [markedPte, leafPte_eq]
    simp
  · refine ⟨marks address, ?_⟩
    rw [markedPte, leafPte_eq, BitVec.or_assoc]

theorem marked_link {m : Memory} {marks : Word → Word} {address p : Word}
    (hword : m.word address = sv39.link p) : m.marked marks address = sv39.link p := by
  have hzero : sv39.link p &&& (pteR ||| pteX) = 0 := pa2pte_or_and (by decide) (by decide)
  simp only [Memory.marked, hword]
  rw [if_pos hzero]

theorem marked_null {m : Memory} {marks : Word → Word} {address : Word}
    (hword : m.word address = 0) : m.marked marks address = 0 := by
  simp [Memory.marked, hword]

theorem link_valid {p : Word} (hp : sv39.Table p) : ¬ Invalid (sv39.link p) := by
  have hlt := hp.2.2
  rintro (hvalid | ⟨-, hwrite⟩ | hreserved)
  · exact sv39.link_valid p hvalid
  · exact hwrite (pa2pte_or_and (by decide) (by decide))
  · refine hreserved (BitVec.eq_of_toNat_eq ?_)
    have hflag : pteV.toNat = 1 := by decide
    have hlink : (sv39.link p).toNat = p.toNat / 4096 * 1024 + 1 := by
      rw [← hflag]
      exact pa2pte_or_toNat (by decide)
    rw [BitVec.toNat_ushiftRight, hlink, Nat.shiftRight_eq_div_pow]
    simp only [BitVec.reduceToNat]
    omega

end Entries

/-! ## The walk agrees with the tree -/

section Walk

variable {h : Walker} {access : Access} {va pa perm root : Word} {m : Memory}
  {marks : Word → Word} {nodes : Tables} {map : PageMap}

theorem privileged_congr {pte : Word} (hflag : pte &&& pteU = perm &&& pteU) :
    h.Privileged access pte ↔ h.Privileged access perm := by
  unfold Walker.Privileged
  rw [hflag]

theorem permitted_congr {pte : Word} (hread : pte &&& pteR = perm &&& pteR)
    (hwrite : pte &&& pteW = perm &&& pteW) (hexec : pte &&& pteX = perm &&& pteX) :
    h.Permitted access pte ↔ h.Permitted access perm := by
  unfold Walker.Permitted
  rw [hread, hwrite, hexec]

/-- A mapping that can be written only cannot be used at all. -/
theorem writeOnly_of_and (hperm : Perm perm) (hzero : perm &&& (pteR ||| pteX) = 0) :
    perm &&& pteR = 0 ∧ perm &&& pteW ≠ 0 := by
  have hbits : perm &&& pteR = 0 ∧ (perm &&& pteW = 0 → perm &&& pteRWX = 0) := by
    have hsplit : perm &&& pteRWX = (perm &&& (pteR ||| pteX)) ||| (perm &&& pteW) := by
      rw [← BitVec.and_or_distrib_left]
      rfl
    have hread : perm &&& pteR = (perm &&& (pteR ||| pteX)) &&& pteR := by
      rw [BitVec.and_assoc]
      rfl
    rw [hsplit, hread, hzero]
    simp
  exact ⟨hbits.1, fun hwrite => hperm.2 (hbits.2 hwrite)⟩

/-- What the walk makes of an entry of a table of level 0. -/
theorem entry_reach {k : Word} (hperm : Perm perm) (hpa : Aligned pa)
    (hlt : pa.toNat < 2 ^ 56) :
    (if Invalid (markedPte pa perm k) ∨ markedPte pa perm k &&& (pteR ||| pteX) = 0 then none
      else h.leaf access va 0 (markedPte pa perm k)) = h.reach access va (pa, perm) := by
  have hread : markedPte pa perm k &&& pteR = perm &&& pteR := markedPte_and hperm rfl rfl
  have hwrite : markedPte pa perm k &&& pteW = perm &&& pteW := markedPte_and hperm rfl rfl
  have hexec : markedPte pa perm k &&& pteX = perm &&& pteX := markedPte_and hperm rfl rfl
  have huser : markedPte pa perm k &&& pteU = perm &&& pteU := markedPte_and hperm rfl rfl
  have hrx : markedPte pa perm k &&& (pteR ||| pteX) = perm &&& (pteR ||| pteX) :=
    markedPte_and hperm rfl rfl
  have hinvalid : Invalid (markedPte pa perm k) ↔ perm &&& pteR = 0 ∧ perm &&& pteW ≠ 0 := by
    unfold Invalid
    rw [hread, hwrite]
    have hvalid : markedPte pa perm k &&& pteV ≠ 0 := markedPte_valid hperm
    have hreserved : markedPte pa perm k >>> 54 = 0 := markedPte_reserved hperm hlt
    tauto
  have hpage : pte2pa (markedPte pa perm k) = pa := markedPte_pa hperm hpa hlt
  have hoffset : pa &&& 4095#64 = 0#64 := by
    apply BitVec.eq_of_toNat_eq
    have hmask : (4095#64).toNat = 2 ^ 12 - 1 := by decide
    rw [BitVec.toNat_and, hmask, Nat.and_two_pow_sub_one_eq_mod]
    exact aligned_iff.mp hpa
  have hleaf : h.leaf access va 0 (markedPte pa perm k) =
      if h.Privileged access perm ∧ h.Permitted access perm then some (pa + (va &&& 0xFFF))
      else none := by
    unfold Walker.leaf
    simp only [hpage, privileged_congr huser, permitted_congr hread hwrite hexec]
    simp [hoffset]
  rw [hleaf, hrx, Walker.reach]
  by_cases hbad : perm &&& pteR = 0 ∧ perm &&& pteW ≠ 0
  · have hnone : ¬ h.Grants access perm := fun hgrants => hgrants.1 hbad
    rw [if_pos (.inl (hinvalid.mpr hbad)), if_neg hnone]
  · have hgood : ¬ (Invalid (markedPte pa perm k) ∨ perm &&& (pteR ||| pteX) = 0) := by
      rintro (hpte | hzero)
      · exact hbad (hinvalid.mp hpte)
      · exact hbad (writeOnly_of_and hperm hzero)
    rw [if_neg hgood]
    exact if_congr (and_iff_right hbad).symm rfl rfl

theorem walk_missing {level : Nat} {table : Word}
    (hzero : m.word (pteAddress table va level) = 0) :
    h.walk access (m.marked marks) va level table = none := by
  have hinvalid : Invalid 0 := .inl (by decide)
  cases level with
  | zero =>
      rw [Walker.walk, marked_null hzero]
      exact if_pos (.inl hinvalid)
  | succ level =>
      rw [Walker.walk, marked_null hzero]
      exact if_pos hinvalid

theorem walk_link {level : Nat} {table p : Word} (hp : sv39.Table p)
    (hlink : m.word (pteAddress table va (level + 1)) = sv39.link p) :
    h.walk access (m.marked marks) va (level + 1) table =
      h.walk access (m.marked marks) va level p := by
  have htarget : pte2pa (sv39.link p) = p := sv39.target_link p hp
  have hleaf : sv39.link p &&& (pteR ||| pteX) = 0 := pa2pte_or_and (by decide) (by decide)
  have hclean : sv39.link p &&& (pteA ||| pteD ||| pteU) = 0 :=
    pa2pte_or_and (by decide) (by decide)
  have hvalid : ¬ Invalid (sv39.link p) := link_valid hp
  rw [Walker.walk]
  simp only [marked_link hlink, if_neg hvalid, hleaf, hclean, htarget]
  simp

/-- From any table of the tree the walk leads to what the tree has for the address. -/
theorem walk_eq (tree : Radix sv39 2 m.page nodes) {target : Option (Word × Word)}
    (htarget : Target target) (hentry : pteOf m nodes va = entryFor target) {level : Nat}
    {table : Word} (hlevel : level ≤ 2) (htable : nodes (tablePath va level) = some table) :
    h.walk access (m.marked marks) va level table = target.bind (h.reach access va) := by
  induction level generalizing table with
  | zero =>
      have hword : m.word (pteAddress table va 0) = entryFor target := by
        rw [← hentry, pteAddress_eq, pteOf, key, Radix.entry_of_node htable]
        rfl
      cases target with
      | none => exact walk_missing hword
      | some target =>
          obtain ⟨pa, perm⟩ := target
          obtain ⟨hpa, hlt, hperm⟩ := htarget
          obtain ⟨k, hmarked⟩ : ∃ k, m.marked marks (pteAddress table va 0) =
              markedPte pa perm k := marked_leafPte hword
          rw [Walker.walk, hmarked]
          exact entry_reach hperm hpa hlt
  | succ level ih =>
      have hlen := tablePath_length va hlevel
      have hinner := tree.inner htable (by omega) (vpn va (level + 1))
      rw [← tablePath_succ va hlevel] at hinner
      cases hnode : nodes (tablePath va level) with
      | none =>
          have hzero : m.word (pteAddress table va (level + 1)) = 0 := by
            rw [hnode] at hinner
            rw [pteAddress_eq]
            exact hinner
          have hnull : entryFor target = 0 := by
            rw [← hentry, pteOf, key, Radix.entry_of_none (missing_below tree (by omega) hnode)]
            rfl
          have hnone : target = none := by
            cases target with
            | none => rfl
            | some target =>
                exact absurd hnull (valid_ne_zero (leafPte_valid _ _))
          rw [walk_missing hzero, hnone]
          rfl
      | some p =>
          have hlink : m.word (pteAddress table va (level + 1)) = sv39.link p := by
            rw [hnode] at hinner
            rw [pteAddress_eq]
            exact hinner
          rw [walk_link (tree.table hnode) hlink]
          exact ih (by omega) hnode

/-- The page that an address of 39 bits and its sign is in. -/
def vaPage (va : Word) : Word := pgRoundDown (va &&& 0x7FFFFFFFFF)

theorem vaPage_toNat (va : Word) : (vaPage va).toNat = va.toNat % 2 ^ 39 / 4096 * 4096 := by
  have hmask : (0x7FFFFFFFFF : Word).toNat = 2 ^ 39 - 1 := by decide
  rw [vaPage, pgRoundDown_toNat, BitVec.toNat_and, hmask, Nat.and_two_pow_sub_one_eq_mod]

theorem key_vaPage (va : Word) : key (vaPage va) = key va := by
  have hvpn : ∀ level ≤ 2, vpn (vaPage va) level = vpn va level := by
    intro level hlevel
    apply Fin.ext
    simp only [vpn, vaPage_toNat]
    obtain rfl | rfl | rfl : level = 0 ∨ level = 1 ∨ level = 2 := by omega
    all_goals omega
  simp only [key, tablePath, hvpn 0 (by omega), hvpn 1 (by omega), hvpn 2 (by omega)]

theorem Serves.translate (serves : Serves m nodes root map) (tree : Radix sv39 2 m.page nodes)
    (hsatp : h.satp = makeSatp root) :
    h.translate access (m.marked marks) va =
      if Canonical va then (map (vaPage va)).bind (h.reach access va) else none := by
  have hroot := tree.table serves.root
  have hmode : h.satp >>> 60 = 8 := by rw [hsatp, makeSatp_mode hroot]
  have hbare : ¬ h.satp >>> 60 = 0 := by
    rw [hmode]
    decide
  have hfound : (h.satp &&& 0xFFFFFFFFFFF) <<< 12 = root := by rw [hsatp, makeSatp_root hroot]
  have haligned : Aligned (vaPage va) := pgRoundDown_aligned _
  have hentry : pteOf m nodes va = entryFor (map (vaPage va)) := by
    have hlt : (vaPage va).toNat < 2 ^ 39 := by
      rw [vaPage_toNat]
      omega
    rw [← serves.entry haligned hlt, pteOf, pteOf, key_vaPage]
  rw [Walker.translate, if_neg hbare, hfound]
  refine if_congr (and_iff_right hmode) ?_ rfl
  exact walk_eq tree (serves.target haligned) hentry (le_refl 2) serves.root

end Walk

end Xv6Kernel.Mm
