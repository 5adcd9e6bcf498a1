import Xv6Kernel.Foundation.Trapless
import Xv6Kernel.Mm.Ownership

/-!
# The allocator on several harts

`alloc_page` and `free_page`, one access after the other, as the harts interleave them.
A hart asks for pages, gives back pages it has got, and writes into those it has; the
marks `took` and `gave` write history variables that no instruction reads.
-/

namespace Xv6Kernel.Mm.Kmem

open Xv6Kernel.Foundation Relation

/-! ## The program of a hart -/

inductive Request where
  | alloc
  | free (page : Word)
  | read (address : Word)
  | write (page : Word) (index : Fin 512) (value : Word)

/-- What `push_off` and `pop_off` use: the `SIE` bit of the hart and its `struct cpu`. -/
structure Core where
  sie : Bool
  noff : Int
  intena : Bool

inductive HeapInstr : Type → Type 1 where
  /-- One access of the hart to its own `Core`. -/
  | core {β : Type} (f : Core → β × Core) : HeapInstr β
  /-- `kmem.lock.locked`. -/
  | locked : HeapInstr Bool
  /-- `kmem.lock.cpu == mycpu()`. -/
  | held : HeapInstr Bool
  /-- `__sync_lock_test_and_set(&kmem.lock.locked, 1)`; answers whether it was set. -/
  | testAndSet : HeapInstr Bool
  /-- The loop of `acquire(&kmem.lock)`. -/
  | spin : HeapInstr Unit
  /-- `kmem.lock.cpu = mycpu()`. -/
  | setCpu : HeapInstr Unit
  /-- `kmem.lock.cpu = 0`. -/
  | clearCpu : HeapInstr Unit
  /-- `__sync_lock_release(&kmem.lock.locked)`. -/
  | unlock : HeapInstr Unit
  | freelist : HeapInstr Word
  | setFreelist (page : Word) : HeapInstr Unit
  | load (address : Word) : HeapInstr Word
  | store (address value : Word) : HeapInstr Unit
  /-- A store to one byte of the word at `address`. -/
  | storeByte (address : Word) (lane : Fin 8) (byte : BitVec 8) : HeapInstr Unit
  /-- The page has been taken off the list. -/
  | took (page : Word) : HeapInstr Unit
  /-- The page has been put on the list. -/
  | gave (page : Word) : HeapInstr Unit
  | panic {β : Type} (message : String) : HeapInstr β
  /-- What the hart does next. -/
  | next : HeapInstr Request
  /-- The rest of the program of a hart that has the pages `mine`. -/
  | more (mine : List Word) : HeapInstr Empty

abbrev HeapM := Program HeapInstr

def readCore {β : Type} (f : Core → β) : HeapM β := .perform (.core fun c => (f c, c))

def writeCore (f : Core → Core) : HeapM Unit := .perform (.core fun c => ((), f c))

def panic {β : Type} (message : String) : HeapM β := .perform (.panic message)

def pushOff : HeapM Unit := do
  let old ← readCore (·.sie)
  writeCore fun c => { c with sie := false }
  if (← readCore (·.noff)) = 0 then
    writeCore fun c => { c with intena := old }
  writeCore fun c => { c with noff := c.noff + 1 }

def popOff : HeapM Unit := do
  if ← readCore (·.sie) then
    panic "pop_off - interruptible"
  if (← readCore (·.noff)) < 1 then
    panic "pop_off"
  writeCore fun c => { c with noff := c.noff - 1 }
  if (← readCore (·.noff)) = 0 then
    if ← readCore (·.intena) then
      writeCore fun c => { c with sie := true }

/-- `holding(&kmem.lock)`. -/
def holding : HeapM Bool := do
  if ← .perform .locked then .perform .held else return false

def spinBody : HeapM Unit := do
  if ← .perform .testAndSet then .perform .spin else pure ()

/-- `acquire(&kmem.lock)`. -/
def acquire : HeapM Unit := do
  pushOff
  if ← holding then
    panic "acquire"
  .perform .spin
  .perform .setCpu

/-- `release(&kmem.lock)`. -/
def release : HeapM Unit := do
  if !(← holding) then
    panic "release"
  .perform .clearCpu
  .perform .unlock
  popOff

/-- `memset(page, byte, PGSIZE)`, byte after byte. -/
def memset (page : Word) (byte : BitVec 8) : HeapM Unit :=
  Program.forEach (List.finRange 512) fun i =>
    Program.forEach (List.finRange 8) fun lane => .perform (.storeByte (cell page i) lane byte)

/-- `if(r) kmem.freelist = r->next;`. -/
def unlinkHead (r : Word) : HeapM Unit :=
  if r = 0 then pure () else do
    let next ← .perform (.load r)
    .perform (.setFreelist next)
    .perform (.took r)

def allocPage : HeapM Word := do
  acquire
  let r ← .perform .freelist
  unlinkHead r
  release
  if r = 0 then panic "alloc_page" else do
    memset r 5
    return r

/-- `r->next = kmem.freelist; kmem.freelist = r;` under the lock. -/
def linkHead (page : Word) : HeapM Unit := do
  acquire
  let head ← .perform .freelist
  .perform (.store page head)
  .perform (.setFreelist page)
  .perform (.gave page)
  release

def freePage (img : Image) (page : Word) : HeapM Unit :=
  if page % pgSize ≠ 0 ∨ page < img.end_ ∨ physTop ≤ page then panic "free_page"
  else do
    memset page 1
    linkHead page

/-- A hart frees and writes only what it has. -/
def client (img : Image) (mine : List Word) : HeapM Empty := do
  match ← .perform .next with
  | .alloc => do
      let page ← allocPage
      .perform (.more (page :: mine))
  | .free page =>
      if page ∈ mine then do
        freePage img page
        .perform (.more (mine.erase page))
      else .perform (.more mine)
  | .read address => do
      let _ ← .perform (.load address)
      .perform (.more mine)
  | .write page index value =>
      if page ∈ mine then do
        .perform (.store (cell page index) value)
        .perform (.more mine)
      else .perform (.more mine)

/-! ## The harts together -/

/-- The bytes of a word lie in memory from the lowest on. -/
def withByte (word : Word) (lane : Fin 8) (byte : BitVec 8) : Word :=
  (word &&& ~~~((0xFF : Word) <<< (8 * lane.val))) ||| (byte.setWidth 64 <<< (8 * lane.val))

example : (List.finRange 8).foldl (fun word lane => withByte word lane 5) 0x123456789abcdef0 =
    Memory.splat 5 := by decide

structure Heap (H : Type) where
  memory : Memory
  /-- The hart that has set `kmem.lock.locked`. -/
  locked : Option H
  /-- `kmem.lock.cpu`. -/
  cpu : Option H
  cores : H → Core
  /-- The pages on the list, in its order. -/
  free : List Word
  /-- The hart that has a page. -/
  owner : Word → Option H

variable {H : Type} [DecidableEq H]

namespace Heap

def store (w : Heap H) (address value : Word) : Heap H :=
  { w with memory := w.memory.store address value }

def storeByte (w : Heap H) (address : Word) (lane : Fin 8) (byte : BitVec 8) : Heap H :=
  w.store address (withByte (w.memory.word address) lane byte)

def setFreelist (w : Heap H) (page : Word) : Heap H :=
  { w with memory := { w.memory with freelist := page } }

def took (w : Heap H) (h : H) (page : Word) : Heap H :=
  { w with free := w.free.tail, owner := Function.update w.owner page (some h) }

def gave (w : Heap H) (page : Word) : Heap H :=
  { w with free := page :: w.free, owner := Function.update w.owner page none }

end Heap

def heapEffect (img : Image) {β : Type} : HeapInstr β → Effect HeapInstr H H (Heap H) β
  | .core f => .atomic fun h w => ((f (w.cores h)).1,
      { w with cores := Function.update w.cores h (f (w.cores h)).2 })
  | .locked => .atomic fun _ w => (w.locked.isSome, w)
  | .held => .atomic fun h w => (decide (w.cpu = some h), w)
  | .testAndSet => .atomic fun h w => (w.locked.isSome, { w with locked := some (w.locked.getD h) })
  | .spin => .call spinBody
  | .setCpu => .atomic fun h w => ((), { w with cpu := some h })
  | .clearCpu => .atomic fun _ w => ((), { w with cpu := none })
  | .unlock => .atomic fun _ w => ((), { w with locked := none })
  | .freelist => .atomic fun _ w => (w.memory.freelist, w)
  | .setFreelist page => .atomic fun _ w => ((), w.setFreelist page)
  | .load address => .atomic fun _ w => (w.memory.word address, w)
  | .store address value => .atomic fun _ w => ((), w.store address value)
  | .storeByte address lane byte => .atomic fun _ w => ((), w.storeByte address lane byte)
  | .took page => .atomic fun h w => ((), w.took h page)
  | .gave page => .atomic fun _ w => ((), w.gave page)
  | .panic message => .halt message
  | .next => .choose
  | .more mine => .call (client img mine)

def harts (img : Image) : Platform HeapInstr H H (Heap H) where
  effect := heapEffect img
  current _ h := h
  fresh _ _ := none
  trap _ _ _ := False
  handler := pure ()

/-- No hart has a page yet, and none is under a `push_off`. -/
def start (sie : H → Bool) (m : Memory) (pages : List Word) :
    Config HeapInstr H H (Heap H) where
  world := ⟨m, none, none, fun h => ⟨sie h, 0, false⟩, pages, fun _ => none⟩
  code _ := .perform (.more [])
  saved _ := .perform (.more [])

/-! ## What the harts keep -/

/-- Every page is on the list, once, or has one owner. -/
structure Inv (pages : List Word) (w : Heap H) : Prop where
  unlocked : w.locked = none → FreeList w.memory w.free
  nodup : w.free.Nodup
  apart : ∀ p ∈ w.free, w.owner p = none
  all : ∀ p, p ∈ pages ↔ p ∈ w.free ∨ ∃ h, w.owner p = some h
  cpu : ∀ h, w.cpu = some h → w.locked = some h

structure Rely (h : H) (w w' : Heap H) : Prop where
  owner : ∀ p, w'.owner p = some h ↔ w.owner p = some h
  words : ∀ p, w.owner p = some h → ∀ a, InPage p a → w'.memory.word a = w.memory.word a
  locked : w'.locked = some h ↔ w.locked = some h
  list : w.locked = some h → w'.free = w.free ∧ w'.memory.freelist = w.memory.freelist ∧
    ∀ p ∈ w.free, w'.memory.word p = w.memory.word p
  own : w'.cores h = w.cores h ∧ (w'.cpu = some h ↔ w.cpu = some h)

/-- What a step of a hart does to the list and to the owners. -/
inductive Moves (h : H) (w w' : Heap H) : Prop where
  | stay (hfree : w'.free = w.free) (howner : w'.owner = w.owner)
  | took {page : Word} (hlocked : w.locked = some h) (hfree : w.free = page :: w'.free)
      (howner : w'.owner = Function.update w.owner page (some h))
  | gave {page : Word} (hlocked : w.locked = some h) (hmine : w.owner page = some h)
      (hfree : w'.free = page :: w.free) (howner : w'.owner = Function.update w.owner page none)

structure Allowed (h : H) (w w' : Heap H) : Prop where
  words : ∀ a, w'.memory.word a ≠ w.memory.word a → ∃ p, w.owner p = some h ∧ InPage p a
  moves : Moves h w w'

/-- `mine` are the pages of the hart. -/
def Has (h : H) (mine : List Word) (w : Heap H) : Prop :=
  mine.Nodup ∧ ∀ p, p ∈ mine ↔ w.owner p = some h

/-- The hart is without the lock. -/
structure Away (h : H) (c : Core) (mine : List Word) (w : Heap H) : Prop where
  has : Has h mine w
  locked : w.locked ≠ some h
  core : w.cores h = c

/-- Between two calls. -/
def Outside (h : H) (mine : List Word) (w : Heap H) : Prop :=
  ∃ c, Away h c mine w ∧ c.noff = 0

/-- The hart has set `locked` and `cpu` does not say so. -/
structure Locked (h : H) (c : Core) (mine : List Word) (w : Heap H) : Prop where
  has : Has h mine w
  locked : w.locked = some h
  core : w.cores h = c
  cpu : w.cpu ≠ some h
  list : FreeList w.memory w.free

/-- The hart has the lock; the list in memory holds `linked`, the history says `free`. -/
structure Inside (h : H) (c : Core) (mine linked free : List Word) (w : Heap H) : Prop where
  has : Has h mine w
  locked : w.locked = some h
  core : w.cores h = c
  cpu : w.cpu = some h
  list : FreeList w.memory linked
  history : w.free = free
  subset : ∀ p ∈ linked, p ∈ free ∨ p ∈ mine

def heapLogic (img : Image) (pages : List Word) : Logic (harts (H := H) img) where
  Inv := Inv pages
  Rely := Rely
  Keep _ _ _ := True
  Resume _ _ _ := False
  Preempt _ _ _ _ := False
  Handoff _ _ _ _ := False
  pre i h w :=
    match i with
    | .spin => w.locked ≠ some h
    | .more mine => Outside h mine w
    | _ => True
  post i h w _ h' w' :=
    match i with
    | .spin =>
        h' = h ∧ ((∀ p, w'.owner p = some h ↔ w.owner p = some h) ∧ w'.cores h = w.cores h) ∧
          w'.locked = some h ∧ w'.cpu ≠ some h ∧ FreeList w'.memory w'.free
    | _ => False
  MayHalt message := message = "alloc_page"
  Allowed := Allowed
  keep_trans _ _ := trivial

section Steps

variable {img : Image} {pages mine linked free : List Word} {h : H} {w w' : Heap H} {page : Word}
  {c : Core}

section Owned

omit [DecidableEq H]

theorem Rely.refl (h : H) (w : Heap H) : Rely h w w :=
  ⟨fun _ => .rfl, fun _ _ _ _ => rfl, .rfl, fun _ => ⟨rfl, rfl, fun _ _ => rfl⟩, rfl, .rfl⟩

theorem Rely.trans {w'' : Heap H} (first : Rely h w w') (second : Rely h w' w'') :
    Rely h w w'' where
  owner p := (second.owner p).trans (first.owner p)
  words p hp a ha := (second.words p ((first.owner p).mpr hp) a ha).trans (first.words p hp a ha)
  locked := second.locked.trans first.locked
  list hlocked := by
    obtain ⟨hfree, hhead, hwords⟩ := first.list hlocked
    obtain ⟨hfree', hhead', hwords'⟩ := second.list (first.locked.mpr hlocked)
    refine ⟨hfree'.trans hfree, hhead'.trans hhead, fun p hp => ?_⟩
    exact (hwords' p (hfree ▸ hp)).trans (hwords p hp)
  own := ⟨second.own.1.trans first.own.1, second.own.2.trans first.own.2⟩

theorem Inside.head (inside : Inside h c mine (page :: linked) free w) :
    Aligned page ∧ page ≠ 0 :=
  ⟨inside.list.aligned page (by simp), inside.list.ne_zero (by simp)⟩

theorem Has.rely (has : Has h mine w) (rely : Rely h w w') : Has h mine w' :=
  ⟨has.1, fun p => (has.2 p).trans (rely.owner p).symm⟩

end Owned

theorem trapless : (heapLogic (H := H) img pages).Trapless where
  trap := id
  refl := Rely.refl
  trans := Rely.trans

theorem steady_away : (heapLogic img pages).Steady h (Away h c mine) :=
  fun away rely => ⟨away.has.rely rely, fun hlocked => away.locked (rely.locked.mp hlocked),
    rely.own.1.trans away.core⟩

theorem steady_locked : (heapLogic img pages).Steady h (Locked h c mine) := by
  intro w w' there rely
  obtain ⟨hfree, hhead, hwords⟩ := rely.list there.locked
  exact ⟨there.has.rely rely, rely.locked.mpr there.locked, rely.own.1.trans there.core,
    fun hcpu => there.cpu (rely.own.2.mp hcpu), hfree ▸ there.list.frame hhead hwords⟩

theorem steady_inside : (heapLogic img pages).Steady h (Inside h c mine linked free) := by
  intro w w' inside rely
  obtain ⟨hfree, hhead, hwords⟩ := rely.list inside.locked
  refine ⟨inside.has.rely rely, rely.locked.mpr inside.locked, rely.own.1.trans inside.core,
    rely.own.2.mpr inside.cpu, ?_, hfree.trans inside.history, inside.subset⟩
  refine inside.list.frame hhead fun p hp => ?_
  rcases inside.subset p hp with hin | hmine
  · exact hwords p (inside.history ▸ hin)
  · exact rely.words p ((inside.has.2 p).mp hmine) p (inPage_self (inside.list.aligned p hp))

/-! ### One access -/

theorem guarantee (inv : Inv pages w') (allowed : Allowed h w w')
    (rely : ∀ h', h' ≠ h → Rely h' w w') : (heapLogic img pages).Guarantee h w w' :=
  ⟨inv, allowed, rfl, rely, fun _ _ => trivial⟩

omit [DecidableEq H] in
/-- A step that writes no word and moves no page. -/
theorem allowed_stay (hword : w'.memory.word = w.memory.word) (hfree : w'.free = w.free)
    (howner : w'.owner = w.owner) : Allowed h w w' :=
  ⟨fun a hne => absurd (congrFun hword a) hne, .stay hfree howner⟩

theorem guarantee_look (inv : Inv pages w) : (heapLogic img pages).Guarantee h w w :=
  guarantee inv (allowed_stay rfl rfl rfl) fun h' _ => .refl h' w

theorem guarantee_core (inv : Inv pages w) (c : Core) : (heapLogic img pages).Guarantee h w
    { w with cores := Function.update w.cores h c } :=
  guarantee ⟨inv.unlocked, inv.nodup, inv.apart, inv.all, inv.cpu⟩ (allowed_stay rfl rfl rfl)
    fun _ hne => ⟨fun _ => .rfl, fun _ _ _ _ => rfl, .rfl, fun _ => ⟨rfl, rfl, fun _ _ => rfl⟩,
      Function.update_of_ne hne .., .rfl⟩

omit [DecidableEq H] in
/-- What the others see of a step that touches the lock alone. -/
theorem rely_lock {locked cpu : Option H} (hlocked : locked = some h ↔ w.locked = some h)
    (hcpu : cpu = some h ↔ w.cpu = some h) : Rely h w { w with locked, cpu } :=
  ⟨fun _ => .rfl, fun _ _ _ _ => rfl, hlocked, fun _ => ⟨rfl, rfl, fun _ _ => rfl⟩, rfl, hcpu⟩

omit [DecidableEq H] in
theorem Inv.cpu_other (inv : Inv pages w) (hlocked : w.locked = some h) {h' : H} (hne : h' ≠ h) :
    w.cpu ≠ some h' := fun hcpu => hne (Option.some.inj ((inv.cpu h' hcpu).symm.trans hlocked))

theorem guarantee_locked (inv : Inv pages w) (hlocked : w.locked = none) :
    (heapLogic img pages).Guarantee h w { w with locked := some h } := by
  refine guarantee ⟨nofun, inv.nodup, inv.apart, inv.all, fun h' hcpu => ?_⟩
    (allowed_stay rfl rfl rfl) fun h' hne => rely_lock ?_ .rfl
  · cases hlocked.symm.trans (inv.cpu h' hcpu)
  · rw [hlocked]
    simpa using hne.symm

theorem guarantee_setCpu (inv : Inv pages w) (hlocked : w.locked = some h) :
    (heapLogic img pages).Guarantee h w { w with cpu := some h } := by
  refine guarantee ⟨inv.unlocked, inv.nodup, inv.apart, inv.all, fun h' hcpu => ?_⟩
    (allowed_stay rfl rfl rfl) fun h' hne => rely_lock .rfl ?_
  · exact hlocked.trans hcpu
  · exact iff_of_false (fun heq => hne (Option.some.inj heq).symm) (inv.cpu_other hlocked hne)

theorem guarantee_clearCpu (inv : Inv pages w) (hlocked : w.locked = some h) :
    (heapLogic img pages).Guarantee h w { w with cpu := none } :=
  guarantee ⟨inv.unlocked, inv.nodup, inv.apart, inv.all, nofun⟩ (allowed_stay rfl rfl rfl)
    fun _ hne => rely_lock .rfl (iff_of_false nofun (inv.cpu_other hlocked hne))

theorem guarantee_unlock (inv : Inv pages w) (there : Locked h c mine w) :
    (heapLogic img pages).Guarantee h w { w with locked := none } := by
  have hlocked := there.locked
  refine guarantee ⟨fun _ => there.list, inv.nodup, inv.apart, inv.all, fun h' hcpu => ?_⟩
    (allowed_stay rfl rfl rfl) fun h' hne => rely_lock ?_ .rfl
  · obtain rfl := Option.some.inj ((inv.cpu h' hcpu).symm.trans hlocked)
    exact absurd hcpu there.cpu
  · rw [hlocked]
    simpa using hne.symm

theorem guarantee_setFreelist (inv : Inv pages w) (hlocked : w.locked = some h) :
    (heapLogic img pages).Guarantee h w (w.setFreelist page) := by
  have hothers : ∀ h', h' ≠ h → w.locked ≠ some h' := by
    rintro h' hne heq
    rw [hlocked] at heq
    exact hne (Option.some.inj heq).symm
  refine guarantee ⟨fun hnone => ?_, inv.nodup, inv.apart, inv.all, inv.cpu⟩
    (allowed_stay rfl rfl rfl)
    fun h' hne => ⟨fun _ => .rfl, fun _ _ _ _ => rfl, .rfl, fun heq => ?_, rfl, .rfl⟩
  · change w.locked = none at hnone
    rw [hlocked] at hnone
    cases hnone
  · exact absurd heq (hothers h' hne)

omit [DecidableEq H] in
theorem Inv.aligned (inv : Inv pages w) (hpages : ∀ p ∈ pages, Aligned p)
    (hpage : page ∈ w.free ∨ ∃ h, w.owner page = some h) : Aligned page :=
  hpages page ((inv.all page).mpr hpage)

omit [DecidableEq H] in
/-- A page that has a word of an owned page is that page. -/
theorem Inv.only (inv : Inv pages w) (hpages : ∀ p ∈ pages, Aligned p)
    (howner : w.owner page = some h) {a p : Word} (ha : InPage page a) (hp : Aligned p)
    (hin : InPage p a) : w.owner p = some h := by
  rwa [inPage_unique hp (inv.aligned hpages (.inr ⟨h, howner⟩)) hin ha]

omit [DecidableEq H] in
theorem Inv.store_free (inv : Inv pages w) (hpages : ∀ p ∈ pages, Aligned p)
    (howner : w.owner page = some h) {a : Word} (ha : InPage page a) (value : Word) :
    ∀ p ∈ w.free, (w.store a value).memory.word p = w.memory.word p := by
  intro p hp
  refine w.memory.store_other value ?_
  rintro rfl
  have hself := inv.aligned hpages (.inl hp)
  have hmine := inv.only hpages howner ha hself (inPage_self hself)
  rw [inv.apart p hp] at hmine
  cases hmine

theorem guarantee_store (inv : Inv pages w) (hpages : ∀ p ∈ pages, Aligned p)
    (howner : w.owner page = some h) {a : Word} (ha : InPage page a) (value : Word) :
    (heapLogic img pages).Guarantee h w (w.store a value) := by
  have hfree := inv.store_free hpages howner ha value
  refine guarantee ⟨fun hnone => (inv.unlocked hnone).frame rfl hfree, inv.nodup, inv.apart,
    inv.all, inv.cpu⟩ ⟨fun b hne => ?_, .stay rfl rfl⟩ fun h' hne =>
      ⟨fun _ => .rfl, fun p hp b hb => ?_, .rfl, fun _ => ⟨rfl, rfl, hfree⟩, rfl, .rfl⟩
  · have hb : b = a := by
      by_contra hother
      exact hne (w.memory.store_other value hother)
    exact ⟨page, howner, hb ▸ ha⟩
  · refine w.memory.store_other value ?_
    rintro rfl
    have hmine := inv.only hpages howner ha (inv.aligned hpages (.inr ⟨h', hp⟩)) hb
    rw [hp] at hmine
    exact hne (Option.some.inj hmine)

theorem guarantee_took (inv : Inv pages w) (hlocked : w.locked = some h)
    (hfree : w.free = page :: free) :
    (heapLogic img pages).Guarantee h w (w.took h page) := by
  have hpage : w.owner page = none := inv.apart page (by simp [hfree])
  have hnodup := inv.nodup
  rw [hfree] at hnodup
  have hnew : page ∉ free := (List.nodup_cons.mp hnodup).1
  have hother : ∀ p, p ≠ page → (w.took h page).owner p = w.owner p :=
    fun p hne => Function.update_of_ne hne ..
  have hself : (w.took h page).owner page = some h := Function.update_self ..
  have htail : (w.took h page).free = free := by simp [Heap.took, hfree]
  refine guarantee ⟨fun hnone => ?_, ?_, fun p hp => ?_, fun p => ?_, inv.cpu⟩
    ⟨fun a hne => absurd rfl hne, .took hlocked (hfree.trans (by rw [htail])) rfl⟩
    fun h' hne => ⟨fun p => ?_, fun _ _ _ _ => rfl, .rfl, fun heq => ?_, rfl, .rfl⟩
  · change w.locked = none at hnone
    rw [hlocked] at hnone
    cases hnone
  · rw [htail]
    exact (List.nodup_cons.mp hnodup).2
  · rw [htail] at hp
    have hne : p ≠ page := by
      rintro rfl
      exact hnew hp
    rw [hother p hne]
    exact inv.apart p (by simp [hfree, hp])
  · rw [inv.all p, htail, hfree, List.mem_cons]
    by_cases heq : p = page
    · simp [heq, hself]
    · simp [heq, hother p heq]
  · by_cases heq : p = page
    · rw [heq, hself, hpage]
      simpa using hne.symm
    · rw [hother p heq]
  · rw [hlocked] at heq
    exact absurd (Option.some.inj heq).symm hne

theorem guarantee_gave (inv : Inv pages w) (hlocked : w.locked = some h)
    (howner : w.owner page = some h) :
    (heapLogic img pages).Guarantee h w (w.gave page) := by
  have hnew : page ∉ w.free := by
    intro hin
    rw [inv.apart page hin] at howner
    cases howner
  have hother : ∀ p, p ≠ page → (w.gave page).owner p = w.owner p :=
    fun p hne => Function.update_of_ne hne ..
  have hself : (w.gave page).owner page = none := Function.update_self ..
  refine guarantee ⟨fun hnone => ?_, List.nodup_cons.mpr ⟨hnew, inv.nodup⟩, fun p hp => ?_,
      fun p => ?_, inv.cpu⟩
    ⟨fun a hne => absurd rfl hne, .gave hlocked howner rfl rfl⟩
    fun h' hne => ⟨fun p => ?_, fun _ _ _ _ => rfl, .rfl, fun heq => ?_, rfl, .rfl⟩
  · change w.locked = none at hnone
    rw [hlocked] at hnone
    cases hnone
  · by_cases heq : p = page
    · rw [heq, hself]
    · rw [hother p heq]
      exact inv.apart p ((List.mem_cons.mp hp).resolve_left heq)
  · rw [inv.all p]
    change _ ↔ p ∈ page :: w.free ∨ _
    by_cases heq : p = page
    · simp [heq, hself, howner]
    · simp [heq, hother p heq]
  · by_cases heq : p = page
    · rw [heq, hself, howner]
      simpa using hne.symm
    · rw [hother p heq]
  · rw [hlocked] at heq
    exact absurd (Option.some.inj heq).symm hne

end Steps

/-! ## The program of a hart is safe -/

theorem FreeList.head_eq {m : Memory} {pages : List Word} (hlist : FreeList m pages) :
    m.freelist = pages.headD 0 := by
  cases pages with
  | nil => exact hlist.chain
  | cons first rest => exact hlist.chain.1

theorem FreeList.second_eq {m : Memory} {first : Word} {rest : List Word}
    (hlist : FreeList m (first :: rest)) : m.word first = rest.headD 0 := by
  have hchain := hlist.chain.2.2
  cases rest with
  | nil => exact hchain
  | cons second rest => exact hchain.1

section Triples

variable {img : Image} {pages mine linked free : List Word} {h : H} {page : Word} {c : Core}

/-! ### push_off and pop_off -/

theorem triple_core {β : Type} (f : Core → β × Core) :
    (heapLogic img pages).Triple h (Away h c mine) (.perform (.core f))
      fun value w => Away h (f c).2 mine w ∧ value = (f c).1 :=
  .atomic trapless rfl steady_away fun w inv away => by
    obtain ⟨has, hlocked, rfl⟩ := away
    exact ⟨guarantee_core inv _, ⟨has, hlocked, Function.update_self ..⟩, rfl⟩

theorem triple_readCore {β : Type} (f : Core → β) :
    (heapLogic img pages).Triple h (Away h c mine) (readCore f)
      fun value w => Away h c mine w ∧ value = f c := triple_core _

theorem triple_writeCore (f : Core → Core) :
    (heapLogic img pages).Triple h (Away h c mine) (writeCore f) fun _ => Away h (f c) mine :=
  .weaken (triple_core _) fun _ _ => And.left

/-- What `push_off` makes of the hart. -/
def Core.pushed (c : Core) : Core :=
  ⟨false, c.noff + 1, if c.noff = 0 then c.sie else c.intena⟩

/-- What `pop_off` makes of the hart. -/
def Core.popped (c : Core) : Core :=
  ⟨if c.noff - 1 = 0 ∧ c.intena then true else c.sie, c.noff - 1, c.intena⟩

omit [DecidableEq H] in
/-- The interrupt enable bit comes back as it was. -/
theorem Core.popped_pushed (hzero : c.noff = 0) :
    c.pushed.popped = { c with intena := c.sie } := by
  cases c with
  | mk sie noff intena => cases sie <;> simp_all [pushed, popped]

theorem triple_pushOff :
    (heapLogic img pages).Triple h (Away h c mine) pushOff fun _ => Away h c.pushed mine := by
  refine .bind (triple_readCore _) fun old => .known ?_
  rintro rfl
  refine .bind (triple_writeCore _) fun _ => .bind (triple_readCore _) fun noff => .known ?_
  rintro rfl
  refine .ite (fun hzero => ?_) fun hne => ?_
  · have hpushed : c.pushed = ⟨false, c.noff + 1, c.sie⟩ := by
      rw [Core.pushed, if_pos hzero]
    rw [hpushed]
    exact .bind (triple_writeCore _) fun _ => triple_writeCore _
  · have hpushed : c.pushed = ⟨false, c.noff + 1, c.intena⟩ := by
      rw [Core.pushed, if_neg hne]
    rw [hpushed]
    exact triple_writeCore _

theorem triple_popOff (hsie : c.sie = false) (hnoff : 1 ≤ c.noff) :
    (heapLogic img pages).Triple h (Away h c mine) popOff fun _ => Away h c.popped mine := by
  refine .bind (triple_readCore _) fun sie => .known ?_
  rintro rfl
  rw [hsie]
  refine .ite nofun fun _ => .bind (triple_readCore _) fun noff => .known ?_
  rintro rfl
  refine .ite (fun hlow => absurd hnoff (by omega)) fun _ => ?_
  refine .bind (triple_writeCore _) fun _ => .bind (triple_readCore _) fun noff => .known ?_
  rintro rfl
  refine .ite (fun hzero => .bind (triple_readCore _) fun intena => .known ?_) fun hne => ?_
  · rintro rfl
    refine .ite (fun hintena => ?_) fun hintena => ?_
    · have hpopped : c.popped = ⟨true, c.noff - 1, c.intena⟩ := by
        rw [Core.popped, if_pos ⟨hzero, hintena⟩]
      rw [hpopped]
      exact triple_writeCore _
    · have hpopped : c.popped = ⟨c.sie, c.noff - 1, c.intena⟩ := by
        rw [Core.popped, if_neg fun hboth => hintena hboth.2]
      rw [hpopped]
      exact .done fun _ away => away
  · have hpopped : c.popped = ⟨c.sie, c.noff - 1, c.intena⟩ := by
      rw [Core.popped, if_neg fun hboth => hne hboth.1]
    rw [hpopped]
    exact .done fun _ away => away

/-! ### The lock -/

theorem triple_holding_away :
    (heapLogic img pages).Triple h (Away h c mine) holding
      fun r w => Away h c mine w ∧ r = false := by
  have hread : (heapLogic img pages).Triple h (Away h c mine) (.perform .locked)
      fun _ => Away h c mine :=
    .atomic trapless rfl steady_away fun w inv away => ⟨guarantee_look inv, away⟩
  refine .bind hread fun locked => .ite (fun _ => ?_) fun _ => ?_
  · exact .atomic trapless rfl steady_away fun w inv away =>
      ⟨guarantee_look inv, away, decide_eq_false fun hcpu => away.locked (inv.cpu h hcpu)⟩
  · exact .done fun _ away => ⟨away, rfl⟩

theorem triple_holding_inside :
    (heapLogic img pages).Triple h (Inside h c mine linked free) holding
      fun r w => Inside h c mine linked free w ∧ r = true := by
  have hread : (heapLogic img pages).Triple h (Inside h c mine linked free) (.perform .locked)
      fun locked w => Inside h c mine linked free w ∧ locked = true :=
    .atomic trapless rfl steady_inside fun w inv inside =>
      ⟨guarantee_look inv, inside, Option.isSome_iff_exists.mpr ⟨h, inside.locked⟩⟩
  refine .bind hread fun locked => .known ?_
  rintro rfl
  exact .atomic trapless rfl steady_inside fun w inv inside =>
    ⟨guarantee_look inv, inside, decide_eq_true inside.cpu⟩

theorem triple_spin :
    (heapLogic img pages).Triple h (Away h c mine) (.perform .spin) fun _ => Locked h c mine :=
  .call trapless rfl steady_away (fun _ _ away => away.locked) fun w _ h' w' away hpost => by
    obtain ⟨rfl, ⟨howner, hcores⟩, hlocked, hcpu, hlist⟩ := hpost
    exact ⟨rfl, ⟨away.has.1, fun p => (away.has.2 p).trans (howner p).symm⟩, hlocked,
      hcores.trans away.core, hcpu, hlist⟩

theorem triple_acquire :
    (heapLogic img pages).Triple h (Away h c mine) acquire
      fun _ w => ∃ free, Inside h c.pushed mine free free w := by
  refine .bind triple_pushOff fun _ => .bind triple_holding_away fun r => .known ?_
  rintro rfl
  refine .ite nofun fun _ => .bind triple_spin fun _ => ?_
  exact .atomic trapless rfl steady_locked fun w inv there =>
    ⟨guarantee_setCpu inv there.locked, w.free, there.has, there.locked, there.core, rfl,
      there.list, rfl, fun p hp => .inl hp⟩

theorem triple_release (hzero : c.noff = 0) :
    (heapLogic img pages).Triple h (Inside h c.pushed mine free free) release
      fun _ => Away h c.pushed.popped mine := by
  refine .bind triple_holding_inside fun r => .known ?_
  rintro rfl
  refine .ite nofun fun _ => ?_
  have clear : (heapLogic img pages).Triple h (Inside h c.pushed mine free free)
      (.perform .clearCpu) fun _ => Locked h c.pushed mine :=
    .atomic trapless rfl steady_inside fun w inv inside =>
      ⟨guarantee_clearCpu inv inside.locked, inside.has, inside.locked, inside.core, nofun,
        inside.history ▸ inside.list⟩
  have unlock : (heapLogic img pages).Triple h (Locked h c.pushed mine)
      (.perform .unlock) fun _ => Away h c.pushed mine :=
    .atomic trapless rfl steady_locked fun w inv there =>
      ⟨guarantee_unlock inv there, there.has, nofun, there.core⟩
  refine .bind clear fun _ => .bind unlock fun _ => triple_popOff rfl ?_
  change 1 ≤ c.noff + 1
  omega

/-! ### alloc_page and free_page -/

theorem triple_freelist :
    (heapLogic img pages).Triple h (Inside h c mine free free) (.perform .freelist)
      fun r w => Inside h c mine free free w ∧ r = free.headD 0 :=
  .atomic trapless rfl steady_inside fun _ inv inside =>
    ⟨guarantee_look inv, inside, FreeList.head_eq inside.list⟩

theorem triple_load_head :
    (heapLogic img pages).Triple h (Inside h c mine (page :: free) (page :: free))
      (.perform (.load page))
      fun next w => Inside h c mine (page :: free) (page :: free) w ∧ next = free.headD 0 :=
  .atomic trapless rfl steady_inside fun _ inv inside =>
    ⟨guarantee_look inv, inside, FreeList.second_eq inside.list⟩

theorem triple_setFreelist_tail :
    (heapLogic img pages).Triple h (Inside h c mine (page :: free) (page :: free))
      (.perform (.setFreelist (free.headD 0))) fun _ => Inside h c mine free (page :: free) :=
  .atomic trapless rfl steady_inside fun w inv inside => by
    refine ⟨guarantee_setFreelist inv inside.locked, inside.has, inside.locked, inside.core,
      inside.cpu, ⟨?_, ?_⟩, inside.history, fun p hp => .inl (by simp [hp])⟩
    · change Chain w.memory.word 0 (free.headD 0) free
      rw [← FreeList.second_eq inside.list]
      exact inside.list.chain.2.2
    · exact fun p hp => inside.list.aligned p (by simp [hp])

theorem triple_took :
    (heapLogic img pages).Triple h (Inside h c mine free (page :: free)) (.perform (.took page))
      fun _ => Inside h c (page :: mine) free free :=
  .atomic trapless rfl steady_inside fun w inv inside => by
    have howner : w.owner page = none := inv.apart page (by simp [inside.history])
    have hnew : page ∉ mine := by
      intro hin
      rw [inside.has.2 page, howner] at hin
      cases hin
    refine ⟨guarantee_took inv inside.locked inside.history, ⟨?_, fun p => ?_⟩, inside.locked,
      inside.core, inside.cpu, inside.list, by simp [Heap.took, inside.history], fun p hp => .inl hp⟩
    · exact List.nodup_cons.mpr ⟨hnew, inside.has.1⟩
    · change p ∈ page :: mine ↔ Function.update w.owner page (some h) p = some h
      by_cases heq : p = page
      · simp [heq]
      · simp [heq, inside.has.2 p]

/-- With the list empty nothing happens, else its head changes hands. -/
theorem triple_unlinkHead :
    (heapLogic img pages).Triple h (Inside h c mine free free) (unlinkHead (free.headD 0))
      fun _ => Inside h c (free.take 1 ++ mine) free.tail free.tail := by
  cases free with
  | nil =>
      rw [unlinkHead, List.headD_nil, if_pos rfl]
      exact .done fun _ inside => inside
  | cons first rest =>
      refine .learn (fun _ _ inside => inside.head.2) fun hne => ?_
      rw [unlinkHead, List.headD_cons, if_neg hne]
      refine .bind triple_load_head fun next => .known ?_
      rintro rfl
      exact .bind triple_setFreelist_tail fun _ => triple_took

theorem triple_store (hpages : ∀ p ∈ pages, Aligned p) (hmine : page ∈ mine) {a : Word}
    (ha : InPage page a) (value : Word) :
    (heapLogic img pages).Triple h (Away h c mine) (.perform (.store a value))
      fun _ => Away h c mine :=
  .atomic trapless rfl steady_away fun _ inv away =>
    ⟨guarantee_store inv hpages ((away.has.2 page).mp hmine) ha value, away.has, away.locked,
      away.core⟩

theorem triple_memset (hpages : ∀ p ∈ pages, Aligned p) (hmine : page ∈ mine)
    (haligned : Aligned page) (byte : BitVec 8) :
    (heapLogic img pages).Triple h (Away h c mine) (memset page byte)
      fun _ => Away h c mine := by
  refine .forEach fun i => .forEach fun lane => .atomic trapless rfl steady_away fun w inv away => ?_
  have howner := (away.has.2 page).mp hmine
  exact ⟨guarantee_store inv hpages howner (inPage_cell haligned i) _, away.has, away.locked,
    away.core⟩

theorem triple_allocPage (hpages : ∀ p ∈ pages, Aligned p) (hzero : c.noff = 0) :
    (heapLogic img pages).Triple h (Away h c mine) allocPage
      fun r => Away h c.pushed.popped (r :: mine) := by
  refine .bind triple_acquire fun _ => .unpack fun free => ?_
  refine .bind triple_freelist fun r => .known ?_
  rintro rfl
  cases free with
  | nil =>
      refine .bind triple_unlinkHead fun _ => .bind (triple_release hzero) fun _ => ?_
      rw [List.headD_nil, if_pos rfl]
      exact .halt rfl rfl
  | cons first rest =>
      refine .learn (fun _ _ inside => inside.head) fun hfirst => ?_
      refine .bind triple_unlinkHead fun _ => .bind (triple_release hzero) fun _ => ?_
      rw [List.headD_cons, if_neg hfirst.2]
      refine .bind (triple_memset hpages ?_ hfirst.1 5) fun _ => ?_
      · exact List.mem_cons_self
      · exact .done fun _ away => away

/-- The head that was read is in the page to be linked. -/
theorem triple_store_link (hpages : ∀ p ∈ pages, Aligned p) (hmine : page ∈ mine)
    (haligned : Aligned page) :
    (heapLogic img pages).Triple h (Inside h c mine free free)
      (.perform (.store page (free.headD 0)))
      fun _ w => Inside h c mine free free w ∧ w.memory.word page = free.headD 0 :=
  .atomic trapless rfl steady_inside fun w inv inside => by
    have howner := (inside.has.2 page).mp hmine
    have hself := inPage_self haligned
    have hkept := inv.store_free hpages howner hself (free.headD 0)
    refine ⟨guarantee_store inv hpages howner hself _, ⟨inside.has, inside.locked, inside.core,
      inside.cpu, ?_, inside.history, inside.subset⟩, w.memory.store_self ..⟩
    exact inside.list.frame rfl fun p hp => hkept p (inside.history ▸ hp)

theorem triple_setFreelist_push (hmine : page ∈ mine) (haligned : Aligned page)
    (hne : page ≠ 0) :
    (heapLogic img pages).Triple h
      (fun w => Inside h c mine free free w ∧ w.memory.word page = free.headD 0)
      (.perform (.setFreelist page)) fun _ => Inside h c mine (page :: free) free := by
  refine .atomic trapless rfl ?_ fun w inv inside => ?_
  · rintro w w' ⟨inside, hword⟩ rely
    have hkept := rely.words page ((inside.has.2 page).mp hmine) page (inPage_self haligned)
    exact ⟨steady_inside inside rely, hkept.trans hword⟩
  · obtain ⟨inside, hword⟩ := inside
    refine ⟨guarantee_setFreelist inv inside.locked, inside.has, inside.locked, inside.core,
      inside.cpu, ⟨?_, ?_⟩, inside.history, ?_⟩
    · refine ⟨rfl, hne, ?_⟩
      change Chain w.memory.word 0 (w.memory.word page) free
      rw [hword, ← FreeList.head_eq inside.list]
      exact inside.list.chain
    · intro p hp
      rcases List.mem_cons.mp hp with rfl | hfree
      · exact haligned
      · exact inside.list.aligned p hfree
    · intro p hp
      rcases List.mem_cons.mp hp with rfl | hfree
      · exact .inr hmine
      · exact .inl hfree

theorem triple_gave (hmine : page ∈ mine) :
    (heapLogic img pages).Triple h (Inside h c mine (page :: free) free) (.perform (.gave page))
      fun _ => Inside h c (mine.erase page) (page :: free) (page :: free) :=
  .atomic trapless rfl steady_inside fun w inv inside => by
    have howner := (inside.has.2 page).mp hmine
    refine ⟨guarantee_gave inv inside.locked howner, ⟨inside.has.1.erase page, fun p => ?_⟩,
      inside.locked, inside.core, inside.cpu, inside.list,
      congrArg (page :: ·) inside.history, fun p hp => .inl hp⟩
    change p ∈ mine.erase page ↔ Function.update w.owner page none p = some h
    rw [inside.has.1.mem_erase_iff]
    by_cases heq : p = page
    · simp [heq]
    · simp [heq, inside.has.2 p]

theorem triple_freePage (range : Ranged img) (hmanaged : ∀ p ∈ pages, Managed img p)
    (hmine : page ∈ mine) (hzero : c.noff = 0) :
    (heapLogic img pages).Triple h (Away h c mine) (freePage img page)
      fun _ => Away h c.pushed.popped (mine.erase page) := by
  have hmember : ∀ w : Heap H, Inv pages w → Away h c mine w → Managed img page :=
    fun w inv away =>
      hmanaged page ((inv.all page).mpr (.inr ⟨h, (away.has.2 page).mp hmine⟩))
  refine .learn hmember fun hpage => ?_
  have hpages : ∀ p ∈ pages, Aligned p := fun p hp => (hmanaged p hp).1
  have haligned : Aligned page := hpage.1
  have hne : page ≠ 0 := Managed.ne_zero range.ne_zero range.below hpage
  have hcheck : ¬ (page % pgSize ≠ 0 ∨ page < img.end_ ∨ physTop ≤ page) := by
    obtain ⟨-, hlow, hhigh⟩ := hpage
    obtain ⟨hend, -⟩ := end_le_pgRoundUp range.below
    rintro (hoff | hbelow | habove)
    · exact hoff haligned
    · rw [BitVec.lt_def] at hbelow
      omega
    · rw [BitVec.le_def] at habove
      omega
  rw [freePage, if_neg hcheck]
  refine .bind (triple_memset hpages hmine haligned 1) fun _ => ?_
  refine .bind triple_acquire fun _ => .unpack fun free => ?_
  refine .bind triple_freelist fun r => .known ?_
  rintro rfl
  refine .bind (triple_store_link hpages hmine haligned) fun _ => ?_
  refine .bind (triple_setFreelist_push hmine haligned hne) fun _ => ?_
  exact .bind (triple_gave hmine) fun _ => triple_release hzero

theorem triple_more (hzero : c.noff = 0) :
    (heapLogic img pages).Triple h (Away h c mine) (.perform (.more mine))
      fun value _ => value.elim :=
  .call trapless rfl steady_away (fun _ _ away => ⟨c, away, hzero⟩) fun _ _ _ _ _ hpost =>
    hpost.elim

theorem triple_client (range : Ranged img) (hmanaged : ∀ p ∈ pages, Managed img p) :
    (heapLogic img pages).Triple h (Outside h mine) (client img mine)
      fun value _ => value.elim := by
  have hpages : ∀ p ∈ pages, Aligned p := fun p hp => (hmanaged p hp).1
  refine .unpack fun c => .known fun hzero => ?_
  have hagain : c.pushed.popped.noff = 0 := by
    rw [Core.popped_pushed hzero]
    exact hzero
  unfold client
  refine .bind (.choose trapless rfl steady_away) fun request => ?_
  cases request with
  | alloc => exact .bind (triple_allocPage hpages hzero) fun page => triple_more hagain
  | free page =>
      refine .ite (fun hmine => ?_) fun _ => triple_more hzero
      exact .bind (triple_freePage range hmanaged hmine hzero) fun _ => triple_more hagain
  | read address =>
      have hload : (heapLogic img pages).Triple h (Away h c mine) (.perform (.load address))
          fun _ => Away h c mine :=
        .atomic trapless rfl steady_away fun _ inv away => ⟨guarantee_look inv, away⟩
      exact .bind hload fun _ => triple_more hzero
  | write page index value =>
      refine .ite (fun hmine => ?_) fun _ => triple_more hzero
      have hstore : (heapLogic img pages).Triple h (Away h c mine)
          (.perform (.store (cell page index) value)) fun _ => Away h c mine := by
        have hmember : ∀ w : Heap H, Inv pages w → Away h c mine w → Aligned page :=
          fun w inv away => inv.aligned hpages (.inr ⟨h, (away.has.2 page).mp hmine⟩)
        exact .learn hmember fun haligned =>
          triple_store hpages hmine (inPage_cell haligned index) _
      exact .bind hstore fun _ => triple_more hzero

/-- The hart has what it had. -/
def Same (h : H) (w₀ w : Heap H) : Prop :=
  (∀ p, w.owner p = some h ↔ w₀.owner p = some h) ∧ w.cores h = w₀.cores h

/-- It waits for the lock. -/
def Waiting (h : H) (w₀ w : Heap H) : Prop := Same h w₀ w ∧ w.locked ≠ some h

/-- It has taken the lock. -/
def Taken (h : H) (w₀ w : Heap H) : Prop :=
  Same h w₀ w ∧ w.locked = some h ∧ w.cpu ≠ some h ∧ FreeList w.memory w.free

theorem steady_waiting {w₀ : Heap H} : (heapLogic img pages).Steady h (Waiting h w₀) :=
  fun waiting rely => ⟨⟨fun p => (rely.owner p).trans (waiting.1.1 p),
    rely.own.1.trans waiting.1.2⟩, fun hlocked => waiting.2 (rely.locked.mp hlocked)⟩

theorem triple_testAndSet {w₀ : Heap H} :
    (heapLogic img pages).Triple h (Waiting h w₀) (.perform .testAndSet)
      fun taken w => if taken then Waiting h w₀ w else Taken h w₀ w := by
  refine .atomic trapless rfl steady_waiting fun w inv waiting => ?_
  cases hlocked : w.locked with
  | none =>
      have hlist := inv.unlocked hlocked
      simp only [Option.isSome_none, Option.getD_none]
      exact ⟨guarantee_locked inv hlocked, waiting.1, rfl,
        fun hcpu => waiting.2 (inv.cpu h hcpu), hlist⟩
  | some h' =>
      have hsame : { w with locked := some h' } = w := by rw [← hlocked]
      simp only [Option.isSome_some, Option.getD_some, hsame]
      exact ⟨guarantee_look inv, waiting⟩

theorem triple_spinBody {w₀ : Heap H} :
    (heapLogic img pages).Triple h (Waiting h w₀) spinBody fun _ => Taken h w₀ := by
  refine .bind triple_testAndSet fun taken => ?_
  cases taken with
  | false => exact .done fun _ there => there
  | true =>
      refine .call trapless rfl steady_waiting (fun _ _ waiting => waiting.2) ?_
      rintro w value h' w' waiting ⟨rfl, ⟨howner, hcores⟩, htaken⟩
      exact ⟨rfl, ⟨fun p => (howner p).trans (waiting.1.1 p), hcores.trans waiting.1.2⟩, htaken⟩

theorem verified (range : Ranged img) (hmanaged : ∀ p ∈ pages, Managed img p) :
    (heapLogic (H := H) img pages).Verified where
  call := by
    intro β i body h w heffect inv hpre
    cases i with
    | spin =>
        cases heffect
        have hwaiting : Waiting h w w := ⟨⟨fun _ => .rfl, rfl⟩, hpre⟩
        exact triple_spinBody.wp w inv hwaiting
    | more mine =>
        cases heffect
        refine Logic.wp_mono inv (fun value _ _ _ _ => value.elim)
          ((triple_client range hmanaged).wp w inv hpre)
    | _ => cases heffect
  handler := fun _ htrap => htrap.elim
  fresh := by
    intro c program h w hfresh
    cases hfresh

/-! ## Every run -/

end Triples

/-- The allocator with each call a single step: a stack of pages, and who has the others. -/
structure Stock (H : Type) where
  free : List Word
  owner : Word → Option H

inductive StockStep : Stock H → Stock H → Prop where
  | alloc {s : Stock H} (h : H) {page : Word} {rest : List Word} (hfree : s.free = page :: rest) :
      StockStep s ⟨rest, Function.update s.owner page (some h)⟩
  | free {s : Stock H} (h : H) {page : Word} (hmine : s.owner page = some h) :
      StockStep s ⟨page :: s.free, Function.update s.owner page none⟩

def Heap.stock (w : Heap H) : Stock H := ⟨w.free, w.owner⟩

omit [DecidableEq H] in
theorem Moves.refines {h : H} {w w' : Heap H} (moves : Moves h w w') :
    w'.stock = w.stock ∨ StockStep w.stock w'.stock := by
  cases moves with
  | stay hfree howner => exact .inl (by rw [Heap.stock, Heap.stock, hfree, howner])
  | took _ hfree howner =>
      right
      rw [Heap.stock, Heap.stock, howner]
      exact .alloc h hfree
  | gave _ hmine hfree howner =>
      right
      rw [Heap.stock, Heap.stock, howner, hfree]
      exact .free h hmine

section Runs

variable {img : Image} {pages : List Word} {m : Memory} {sie : H → Bool}
  {c c' : Config HeapInstr H H (Heap H)}

omit [DecidableEq H] in
theorem start_inv (hfree : FreeList m pages) :
    Inv pages (start sie m pages : Config HeapInstr H H (Heap H)).world :=
  ⟨fun _ => hfree, hfree.nodup, fun _ _ => rfl, fun p => by simp [start], nofun⟩

theorem start_good (hfree : FreeList m pages) :
    (heapLogic (H := H) img pages).Good (start sie m pages) where
  inv := start_inv hfree
  running h := by
    have away : Away h ⟨sie h, 0, false⟩ []
        (start sie m pages : Config HeapInstr H H (Heap H)).world :=
      ⟨⟨List.nodup_nil, fun p => by simp [start]⟩, by simp [start], rfl⟩
    exact Logic.wp_mono (start_inv hfree) (fun value _ _ _ _ => value.elim)
      ((triple_more rfl).wp _ (start_inv hfree) away)
  suspended c hc := absurd rfl (hc c)

/-- A step of the harts is a step of the allocator or none. -/
theorem step_refines (range : Ranged img) (hmanaged : ∀ p ∈ pages, Managed img p)
    (good : (heapLogic img pages).Good c) (hstep : Step (harts img) c c') :
    c'.world.stock = c.world.stock ∨ StockStep c.world.stock c'.world.stock := by
  obtain ⟨h, -, hsame | hallowed⟩ := good.allowed (verified range hmanaged) hstep
  · exact .inl (by rw [hsame])
  · exact hallowed.moves.refines

theorem run_refines (range : Ranged img) (hmanaged : ∀ p ∈ pages, Managed img p)
    (hfree : FreeList m pages) (hrun : Reachable (harts img) (start sie m pages) c) :
    ReflTransGen StockStep ⟨pages, fun _ => none⟩ c.world.stock := by
  induction hrun with
  | refl => exact .refl
  | tail hrun hstep ih =>
      have good := (start_good hfree).reachable (verified range hmanaged) hrun
      rcases step_refines range hmanaged good hstep with hsame | hmove
      · rw [hsame]
        exact ih
      · exact ih.tail hmove

/-- What holds of the pages in every state of every run of the harts. -/
structure Served (img : Image) (pages : List Word) (c : Config HeapInstr H H (Heap H)) :
    Prop where
  /-- No page is lost, none is with two, and the list in memory is whole when unlocked. -/
  inv : Inv pages c.world
  refines : ReflTransGen StockStep ⟨pages, fun _ => none⟩ c.world.stock
  /-- A hart knows which pages are its own. -/
  asks : ∀ h mine next, c.code h = .step (.more mine) next →
    mine.Nodup ∧ ∀ p, p ∈ mine ↔ c.world.owner p = some h
  /-- Only its owner writes into a page. -/
  writes : ∀ c', Step (harts img) c c' → ∃ h, (∀ h', h' ≠ h → c'.code h' = c.code h') ∧
    ∀ a, c'.world.memory.word a ≠ c.world.memory.word a →
      ∃ p, c.world.owner p = some h ∧ InPage p a
  panics : ∀ h {β : Type} message (next : β → HeapM Empty),
    c.code h = .step (.panic message) next → message = "alloc_page"

theorem served (range : Ranged img) (hmanaged : ∀ p ∈ pages, Managed img p)
    (hfree : FreeList m pages) (hrun : Reachable (harts img) (start sie m pages) c) :
    Served img pages c := by
  have good := (start_good hfree).reachable (verified range hmanaged) hrun
  refine ⟨good.inv, run_refines range hmanaged hfree hrun, fun h mine next hcode => ?_,
    fun c' hstep => ?_, fun h _ message next hcode => good.halt hcode rfl⟩
  · have outside : Outside h mine c.world := (good.does hcode).1
    obtain ⟨_, away, -⟩ := outside
    exact away.has
  · obtain ⟨h, hothers, hsame | hallowed⟩ := good.allowed (verified range hmanaged) hstep
    · exact ⟨h, hothers, fun a hne => absurd (by rw [hsame]) hne⟩
    · exact ⟨h, hothers, hallowed.words⟩

end Runs

end Xv6Kernel.Mm.Kmem
