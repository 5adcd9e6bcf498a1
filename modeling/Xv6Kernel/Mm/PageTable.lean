import Xv6Kernel.Foundation.Radix
import Xv6Kernel.Mm.Allocator

/-!
# Page tables

`vm.c`.  A `pagetable_t` is the address of a page of 512 entries; the walks go
down from level 2 and allocate, as `walk_create` does, whatever is missing.
-/

namespace Xv6Kernel.Mm

open Xv6Kernel.Foundation

/-! ## vm.c -/

def load (address : Word) : MemM Word := touch fun m => (m.word address, m)

def store (address value : Word) : MemM Unit :=
  touch fun m => ((), m.store address value)

/-- `&pt[VPN_MASK(va, level)]`. -/
def pteAddress (pt va : Word) (level : Nat) : Word := pt + 8 * vpnMask va level

/-- The levels of `walk_lookup` from `level` down. -/
def walkLookupFrom (va : Word) : Nat → Word → MemM Word
  | 0, pt => pure (pteAddress pt va 0)
  | level + 1, pt => do
      let pte ← load (pteAddress pt va (level + 1))
      if pte &&& pteV = 0 then
        return 0
      walkLookupFrom va level (pte2pa pte)

def walkLookup (pt va : Word) : MemM Word := walkLookupFrom va 2 pt

/-- The levels of `walk_create` from `level` down. -/
def walkCreateFrom (va : Word) : Nat → Word → MemM Word
  | 0, pt => pure (pteAddress pt va 0)
  | level + 1, pt => do
      let pte := pteAddress pt va (level + 1)
      let entry ← load pte
      if entry &&& pteV = 0 then
        let newPage ← allocPage
        if newPage = 0 then
          return 0
        memset newPage 0 pgSize
        store pte (pa2pte newPage ||| pteV)
      let entry ← load pte
      walkCreateFrom va level (pte2pa entry)

def walkCreate (pt va : Word) : MemM Word := walkCreateFrom va 2 pt

def mapPage (pt va pa perm : Word) : MemM Int := do
  if va % pgSize ≠ 0 ∨ pa % pgSize ≠ 0 then
    return -1
  let pte ← walkCreate pt va
  if pte = 0 then
    return -1
  if (← load pte) &&& pteV ≠ 0 then
    panic "remap"
  store pte (pa2pte pa ||| perm ||| pteV)
  return 0

def createPagetable : MemM Word := do
  let pt ← allocPage
  if pt = 0 then
    return 0
  memset pt 0 pgSize
  return pt

/-- `destroy_pagetable` with the depth its recursion may still reach. -/
def destroyFrom (img : Image) : Nat → Word → MemM Unit
  | 0, _ => diverge
  | depth + 1, pt => do
      Program.forEach (List.finRange 512) fun i => do
        let pte ← load (cell pt i)
        if pte &&& pteV ≠ 0 ∧ pte &&& pteRWX = 0 then
          destroyFrom img depth (pte2pa pte)
        else if pte &&& pteV ≠ 0 then
          freePage img (pte2pa pte)
      freePage img pt

/-- A recursion deeper than there are pages has entered some table twice and
never comes back. -/
def destroyPagetable (img : Image) (pt : Word) : MemM Unit :=
  destroyFrom img (2 ^ 52 + 1) pt

/-- The loop of `kvmmap`; `fuel` is the number of rounds until `a == last`. -/
def kvmmapLoop (kpgtbl last perm : Word) : Nat → Word → Word → MemM Unit
  | 0, _, _ => diverge
  | fuel + 1, a, pa => do
      if (← mapPage kpgtbl a pa perm) ≠ 0 then
        panic "kvmmap"
      if a = last then
        return ()
      kvmmapLoop kpgtbl last perm fuel (a + pgSize) (pa + pgSize)

def kvmmap (kpgtbl va pa sz perm : Word) : MemM Unit :=
  if sz = 0 then pure ()
  else
    let a := pgRoundDown va
    let last := pgRoundDown (va + sz - 1)
    kvmmapLoop kpgtbl last perm ((last - a).toNat / 4096 + 1) a pa

def unmapPage (pt va : Word) : MemM Unit := do
  let pte ← walkLookup pt va
  if pte = 0 then
    panic "unmap_page: address not mapped"
  if (← load pte) &&& pteV = 0 then
    panic "unmap_page: not mapped"
  store pte 0

def kvminit (img : Image) : MemM Unit := do
  let pt ← createPagetable
  touch fun m => ((), { m with kernelPagetable := pt })
  kvmmap pt kernBase kernBase (img.etext - kernBase) (pteR ||| pteX)
  kvmmap pt img.etext img.etext (physTop - img.etext) (pteR ||| pteW)
  kvmmap pt uart0 uart0 pgSize (pteR ||| pteW)

end Xv6Kernel.Mm
