import Mathlib.Data.BitVec
import Mathlib.Tactic.NormNum
import Mathlib.Tactic.Ring

/-!
# Addresses, page-table entries and the memory map

The macros of `riscv.h`, `memlayout.h` and `param.h` on 64-bit words, each with
the arithmetic fact by which the rest of the development uses it.
-/

namespace Xv6Kernel.Mm

/-- `uint64`, which is also what every pointer is. -/
abbrev Word := BitVec 64

/-! ## The memory map -/

def pgSize : Word := 4096
def kernBase : Word := 0x80000000
def physTop : Word := kernBase + 128 * 1024 * 1024
def uart0 : Word := 0x10000000
def maxVa : Word := 1 <<< (9 + 9 + 9 + 12 - 1)
def trampolineVa : Word := maxVa - pgSize
def trapframeVa : Word := trampolineVa - pgSize

/-- `NPROC`; every loop over the process table runs over its slots. -/
def nproc : Nat := 64

abbrev Slot := Fin nproc

def kstackVa (p : Slot) : Word :=
  trampolineVa - (BitVec.ofNat 64 p.val + 1) * 2 * pgSize

/-- The symbols `kernel.ld` and the linker provide. -/
structure Image where
  etext : Word
  end_ : Word
  trampoline : Word
  forkret : Word
  initTask : Word

/-! ## Rounding and alignment -/

def pgRoundUp (size : Word) : Word := (size + (pgSize - 1)) &&& ~~~(pgSize - 1)
def pgRoundDown (address : Word) : Word := address &&& ~~~(pgSize - 1)

def Aligned (address : Word) : Prop := address % pgSize = 0

instance (address : Word) : Decidable (Aligned address) :=
  inferInstanceAs (Decidable (address % pgSize = 0))

theorem aligned_iff {address : Word} :
    Aligned address ↔ address.toNat % 4096 = 0 := by
  simp [Aligned, pgSize, ← BitVec.toNat_inj]

private theorem clear_low_bits (address : Word) :
    (address &&& ~~~(pgSize - 1)).toNat = address.toNat / 4096 * 4096 := by
  have hmask : ~~~(pgSize - 1) = BitVec.allOnes 64 <<< 12 := by decide
  have hshift : address &&& ~~~(pgSize - 1) = (address >>> 12) <<< 12 := by
    rw [hmask]
    ext i hi
    by_cases h : i < 12
    · simp only [BitVec.getElem_and, BitVec.getElem_shiftLeft, h]
      simp
    · simp only [BitVec.getElem_and, BitVec.getElem_shiftLeft,
        BitVec.getElem_allOnes, h]
      simp [show 12 + (i - 12) = i by omega, hi]
  rw [hshift]
  simp [BitVec.toNat_shiftLeft, BitVec.toNat_ushiftRight, Nat.shiftLeft_eq,
    Nat.shiftRight_eq_div_pow]
  omega

theorem pgRoundDown_toNat (address : Word) :
    (pgRoundDown address).toNat = address.toNat / 4096 * 4096 :=
  clear_low_bits address

theorem pgRoundDown_aligned (address : Word) : Aligned (pgRoundDown address) := by
  rw [aligned_iff, pgRoundDown_toNat]
  omega

theorem pgRoundDown_of_aligned {address : Word} (h : Aligned address) :
    pgRoundDown address = address := by
  rw [aligned_iff] at h
  apply BitVec.eq_of_toNat_eq
  rw [pgRoundDown_toNat]
  omega

theorem pgRoundUp_toNat {address : Word} (h : address.toNat + 4095 < 2 ^ 64) :
    (pgRoundUp address).toNat = (address.toNat + 4095) / 4096 * 4096 := by
  have hsum : (address + (pgSize - 1)).toNat = address.toNat + 4095 := by
    rw [BitVec.toNat_add, show (pgSize - 1).toNat = 4095 by decide]
    omega
  rw [pgRoundUp, clear_low_bits, hsum]

theorem pgRoundUp_aligned (address : Word) : Aligned (pgRoundUp address) := by
  rw [aligned_iff, pgRoundUp, clear_low_bits]
  omega

/-! ## The words of a page -/

/-- `&page[index]`, for the 512 words of a page. -/
def cell (page : Word) (index : Fin 512) : Word :=
  page + 8 * BitVec.ofNat 64 index.val

theorem cell_toNat {page : Word} (h : Aligned page) (index : Fin 512) :
    (cell page index).toNat = page.toNat + 8 * index.val := by
  rw [aligned_iff] at h
  have hi := index.isLt
  have hp := page.isLt
  rw [cell, BitVec.toNat_add, BitVec.toNat_mul, BitVec.toNat_ofNat]
  simp only [BitVec.reduceToNat]
  omega

theorem cell_inj {page page' : Word} {index index' : Fin 512}
    (h : Aligned page) (h' : Aligned page')
    (heq : cell page index = cell page' index') :
    page = page' ∧ index = index' := by
  have hnat := congrArg BitVec.toNat heq
  rw [cell_toNat h, cell_toNat h'] at hnat
  rw [aligned_iff] at h h'
  have hi := index.isLt
  have hi' := index'.isLt
  constructor
  · apply BitVec.eq_of_toNat_eq
    omega
  · apply Fin.ext
    omega

/-- The addresses that lie in a page. -/
def InPage (page address : Word) : Prop := address - page < pgSize

instance (page address : Word) : Decidable (InPage page address) :=
  inferInstanceAs (Decidable (address - page < pgSize))

theorem inPage_iff {page address : Word} (h : Aligned page) :
    InPage page address ↔
      page.toNat ≤ address.toNat ∧ address.toNat < page.toNat + 4096 := by
  rw [aligned_iff] at h
  have hp := page.isLt
  have ha := address.isLt
  simp only [InPage, pgSize, BitVec.lt_def, BitVec.toNat_sub,
    BitVec.reduceToNat]
  omega

theorem inPage_cell {page : Word} (h : Aligned page) (index : Fin 512) :
    InPage page (cell page index) := by
  rw [inPage_iff h, cell_toNat h]
  have hi := index.isLt
  omega

theorem inPage_self {page : Word} (h : Aligned page) : InPage page page := by
  rw [inPage_iff h]
  omega

theorem inPage_unique {page page' address : Word} (h : Aligned page)
    (h' : Aligned page') (hin : InPage page address)
    (hin' : InPage page' address) : page = page' := by
  rw [inPage_iff h] at hin
  rw [inPage_iff h'] at hin'
  rw [aligned_iff] at h h'
  apply BitVec.eq_of_toNat_eq
  omega

/-! ## Page-table entries -/

/-- `VPN_MASK(va, level)`. -/
def vpnMask (va : Word) (level : Nat) : Word :=
  (va >>> (12 + 9 * level)) &&& 0x1FF

def pa2pte (pa : Word) : Word := (pa >>> 12) <<< 10
def pte2pa (pte : Word) : Word := (pte >>> 10) <<< 12

def pteV : Word := 1 <<< 0
def pteR : Word := 1 <<< 1
def pteW : Word := 1 <<< 2
def pteX : Word := 1 <<< 3
def pteU : Word := 1 <<< 4

/-- `PTE_FLAGS(pte)`. -/
def pteFlags (pte : Word) : Word := pte &&& 0x3FF

/-- `PTE_R | PTE_W | PTE_X`, which tells a leaf from a pointer to a table. -/
def pteRWX : Word := pteR ||| pteW ||| pteX

/-- The index a virtual address has in the table of a level. -/
def vpn (va : Word) (level : Nat) : Fin 512 :=
  ⟨va.toNat / 2 ^ (12 + 9 * level) % 512, Nat.mod_lt _ (by norm_num)⟩

theorem vpnMask_eq (va : Word) (level : Nat) :
    vpnMask va level = BitVec.ofNat 64 (vpn va level).val := by
  apply BitVec.eq_of_toNat_eq
  have hlt := (vpn va level).isLt
  have hmask : (0x1FF : Word).toNat = 2 ^ 9 - 1 := by decide
  rw [vpnMask, BitVec.toNat_and, BitVec.toNat_ushiftRight,
    Nat.shiftRight_eq_div_pow, BitVec.toNat_ofNat, hmask,
    Nat.and_two_pow_sub_one_eq_mod, Nat.mod_eq_of_lt (a := (vpn va level).val)
      (by omega)]
  rfl

theorem cell_vpn (page va : Word) (level : Nat) :
    page + 8 * vpnMask va level = cell page (vpn va level) := by
  rw [vpnMask_eq, cell]

theorem pa2pte_toNat (pa : Word) :
    (pa2pte pa).toNat = pa.toNat / 4096 * 1024 := by
  have hp := pa.isLt
  simp [pa2pte, BitVec.toNat_shiftLeft, BitVec.toNat_ushiftRight,
    Nat.shiftLeft_eq, Nat.shiftRight_eq_div_pow]
  omega

theorem pa2pte_or_toNat {pa flags : Word} (hflags : flags.toNat < 2 ^ 10) :
    (pa2pte pa ||| flags).toNat = pa.toNat / 4096 * 1024 + flags.toNat := by
  rw [BitVec.toNat_or, pa2pte_toNat, show (1024 : Nat) = 2 ^ 10 by norm_num,
    Nat.mul_comm, ← Nat.two_pow_add_eq_or_of_lt hflags]

theorem pte2pa_pa2pte {pa flags : Word} (haligned : Aligned pa)
    (hpa : pa.toNat < 2 ^ 56) (hflags : flags.toNat < 2 ^ 10) :
    pte2pa (pa2pte pa ||| flags) = pa := by
  rw [aligned_iff] at haligned
  apply BitVec.eq_of_toNat_eq
  simp [pte2pa, BitVec.toNat_shiftLeft, BitVec.toNat_ushiftRight,
    Nat.shiftLeft_eq, Nat.shiftRight_eq_div_pow, pa2pte_or_toNat hflags]
  omega

theorem pteFlags_pa2pte {pa flags : Word} (hflags : flags.toNat < 2 ^ 10) :
    pteFlags (pa2pte pa ||| flags) = flags := by
  apply BitVec.eq_of_toNat_eq
  rw [pteFlags, BitVec.toNat_and, pa2pte_or_toNat hflags,
    show (0x3FF : Word).toNat = 2 ^ 10 - 1 by decide,
    Nat.and_two_pow_sub_one_eq_mod]
  omega

theorem pa2pte_or_and {pa flags mask : Word} (hflags : flags.toNat < 2 ^ 10)
    (hmask : mask &&& 0x3FF = mask) :
    (pa2pte pa ||| flags) &&& mask = flags &&& mask := by
  have h : pteFlags (pa2pte pa ||| flags) = flags := pteFlags_pa2pte hflags
  calc (pa2pte pa ||| flags) &&& mask
      = (pa2pte pa ||| flags) &&& (mask &&& 0x3FF) := by rw [hmask]
    _ = pteFlags (pa2pte pa ||| flags) &&& mask := by
        rw [pteFlags, BitVec.and_comm mask, BitVec.and_assoc]
    _ = flags &&& mask := by rw [h]

end Xv6Kernel.Mm
