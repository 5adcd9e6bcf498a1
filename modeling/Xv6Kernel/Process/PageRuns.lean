import Mathlib.Logic.Relation
import Xv6Kernel.Process.Pages

/-!
# Runs of process creations, exits and reaps

Pages change hands only while a slot's lock is held, and then nothing else runs on
the hart.  So a run is a sequence of `alloc_process` on an unused slot,
`free_process` on a zombie, and whatever else the kernel does to its data between
these without touching pages; `Reaches.stepped` shows that the kernel's own runs are
of this kind.
-/

namespace Xv6Kernel.Process

open Xv6Kernel.Foundation Xv6Kernel.Mm Relation

variable {H : Type} [DecidableEq H]

inductive PageStep (img : Image) (quiet : Bool) (h : H) : World H → World H → Prop where
  | allocate {w w' : World H} {p : Slot} {result : Option Slot} (off : w.Off h)
      (idle : w.Idle) (hunused : (w.kernel.proc p).state = .unused)
      (hrun : Alone (platform img quiet) h (allocFound img p) w (.ok (result, w'))) :
      PageStep img quiet h w w'
  | free {w w' : World H} {p : Slot} {reaper : Option Slot} (off : w.Off h)
      (idle : w.Idle) (hzombie : (w.kernel.proc p).state = .zombie)
      (hrun : Alone (platform img quiet) h (freeProcess img p reaper) w (.ok ((), w'))) :
      PageStep img quiet h w w'
  /-- Creation up to `alloc_process` and after it, exit, scheduling, traps. -/
  | other {w w' : World H} (hmemory : w'.kernel.memory = w.kernel.memory)
      (hpages : ∀ p, (w'.kernel.proc p).trapframe = (w.kernel.proc p).trapframe ∧
        (w'.kernel.proc p).pagetable = (w.kernel.proc p).pagetable)
      (hunused : ∀ p, (w'.kernel.proc p).state = .unused ↔
        (w.kernel.proc p).state = .unused) :
      PageStep img quiet h w w'

/-- The slot holds a process, be it a zombie. -/
def Kernel.Live (k : Kernel) (p : Slot) : Prop := (k.proc p).state ≠ .unused

/-! ## The invariant -/

/-- The pages held by others than page tables: kernel stacks and trapframes. -/
def Kernel.Held (k : Kernel) (kstack : Slot → Word) (q : Word) : Prop :=
  (∃ p, kstack p = q) ∨ ∃ p, k.Live p ∧ (k.proc p).trapframe = q

structure PageInv (img : Image) (kstack : Slot → Word) (k : Kernel) (pages : List Word)
    (trees : Option Slot → Tables) : Prop where
  owned : Ownership img k.memory pages trees (k.Held kstack)
  kernel : Serves k.memory (trees none) k.memory.kernelPagetable (kernelMap img kstack)
  dead : ∀ {p}, ¬ k.Live p → trees (some p) = fun _ => none
  live : ∀ {p}, k.Live p →
    ProcTables img k.memory (trees (some p)) (k.proc p).pagetable
  root_ne_zero : ∀ {p}, k.Live p → (k.proc p).pagetable ≠ 0
  kstack_inj : ∀ {p q}, kstack p = kstack q → p = q
  trapframe_inj : ∀ {p q}, k.Live p → k.Live q →
    (k.proc p).trapframe = (k.proc q).trapframe → p = q
  trapframe_kstack : ∀ {p q}, k.Live p → (k.proc p).trapframe ≠ kstack q

namespace PageInv

variable {img : Image} {kstack : Slot → Word} {k k' : Kernel} {pages pages' : List Word}
  {trees : Option Slot → Tables} {p : Slot} {m : Memory}

/-- Only memory, page pointers and unusedness matter. -/
theorem congr (h : PageInv img kstack k pages trees) (hmemory : k'.memory = k.memory)
    (hpages : ∀ p, (k'.proc p).trapframe = (k.proc p).trapframe ∧
      (k'.proc p).pagetable = (k.proc p).pagetable)
    (hlive : ∀ p, k'.Live p ↔ k.Live p) : PageInv img kstack k' pages trees := by
  have hheld : k'.Held kstack = k.Held kstack := by
    funext q
    simp only [Kernel.Held, hlive, (hpages _).1]
  constructor
  · rw [hmemory, hheld]
    exact h.owned
  · rw [hmemory]
    exact h.kernel
  · exact fun hp => h.dead (mt (hlive _).mpr hp)
  · intro p hp
    rw [hmemory, (hpages p).2]
    exact h.live ((hlive p).mp hp)
  · intro p hp
    rw [(hpages p).2]
    exact h.root_ne_zero ((hlive p).mp hp)
  · exact h.kstack_inj
  · intro p q hp hq
    rw [(hpages p).1, (hpages q).1]
    exact h.trapframe_inj ((hlive p).mp hp) ((hlive q).mp hq)
  · intro p q hp
    rw [(hpages p).1]
    exact h.trapframe_kstack ((hlive p).mp hp)

theorem allocate (h : PageInv img kstack k pages trees) (hunused : ¬ k.Live p)
    {nodes : Tables} {root page : Word} (hpage : page ∈ pages)
    (hbuilt : Built img k.memory m pages' trees (fun q => k.Held kstack q ∨ q = page)
      (some p) nodes root) (hmemory : k'.memory = m)
    (hothers : ∀ q, q ≠ p → k'.proc q = k.proc q) (hlive : k'.Live p)
    (htrapframe : (k'.proc p).trapframe = page) (hroot : (k'.proc p).pagetable = root) :
    PageInv img kstack k' pages' (Function.update trees (some p) nodes) := by
  subst hmemory
  have hnew : ¬ k.Held kstack page := fun hheld => h.owned.others_free hheld hpage
  have hother : ∀ {q}, q ≠ p → (k'.Live q ↔ k.Live q) := by
    intro q hq
    rw [Kernel.Live, Kernel.Live, hothers q hq]
  have hheld : k'.Held kstack = fun q => k.Held kstack q ∨ q = page := by
    funext q
    refine propext ⟨?_, ?_⟩
    · rintro (hstack | ⟨r, hr, rfl⟩)
      · exact .inl (.inl hstack)
      · by_cases hrp : r = p
        · exact .inr (by rw [hrp, htrapframe])
        · rw [hother hrp] at hr
          exact .inl (.inr ⟨r, hr, by rw [hothers r hrp]⟩)
    · rintro ((hstack | ⟨r, hr, rfl⟩) | rfl)
      · exact .inl hstack
      · have hrp : r ≠ p := by
          rintro rfl
          exact hunused hr
        exact .inr ⟨r, (hother hrp).mpr hr, by rw [hothers r hrp]⟩
      · exact .inr ⟨p, hlive, htrapframe⟩
  have hkept : ∀ {t}, t ≠ some p → Function.update trees (some p) nodes t = trees t :=
    fun ht => Function.update_of_ne ht _ _
  refine ⟨?_, ?_, fun {q} hq => ?_, fun {q} hq => ?_, fun {q} hq => ?_, h.kstack_inj,
    fun {q r} hq hr heq => ?_, fun {q r} hq => ?_⟩
  · rw [hheld]
    exact hbuilt.owned
  · rw [hkept (by simp), hbuilt.kernelPagetable]
    exact h.kernel.frame (hbuilt.same none (by simp))
  · by_cases hqp : q = p
    · exact absurd (hqp ▸ hlive) hq
    · rw [hkept (by simpa using hqp)]
      exact h.dead (mt (hother hqp).mpr hq)
  · by_cases hqp : q = p
    · rw [hqp, Function.update_self, hroot]
      exact hbuilt.tables
    · rw [hkept (by simpa using hqp), hothers q hqp]
      exact (h.live ((hother hqp).mp hq)).frame (hbuilt.same _ (by simpa using hqp))
  · by_cases hqp : q = p
    · rw [hqp, hroot]
      exact hbuilt.ne_zero
    · rw [hothers q hqp]
      exact h.root_ne_zero ((hother hqp).mp hq)
  · by_cases hqp : q = p <;> by_cases hrp : r = p
    · rw [hqp, hrp]
    · rw [hqp, htrapframe, hothers r hrp] at heq
      exact absurd (.inr ⟨r, (hother hrp).mp hr, heq.symm⟩) hnew
    · rw [hrp, htrapframe, hothers q hqp] at heq
      exact absurd (.inr ⟨q, (hother hqp).mp hq, heq⟩) hnew
    · rw [hothers q hqp, hothers r hrp] at heq
      exact h.trapframe_inj ((hother hqp).mp hq) ((hother hrp).mp hr) heq
  · by_cases hqp : q = p
    · rw [hqp, htrapframe]
      exact fun heq => hnew (.inl ⟨r, heq.symm⟩)
    · rw [hothers q hqp]
      exact h.trapframe_kstack ((hother hqp).mp hq)

theorem free (h : PageInv img kstack k pages trees) (hlive : k.Live p)
    (hfreed : Freed p k k' m)
    (howned : Ownership img m pages' (Function.update trees (some p) fun _ => none)
      fun q => k.Held kstack q ∧ q ≠ (k.proc p).trapframe)
    (hsame : SameEntries k.memory m trees (some p))
    (hkernel : m.kernelPagetable = k.memory.kernelPagetable) :
    PageInv img kstack k' pages' (Function.update trees (some p) fun _ => none) := by
  have hdead : ¬ k'.Live p := by
    rw [Kernel.Live, hfreed.slot]
    exact fun hne => hne rfl
  have hother : ∀ {q}, q ≠ p → (k'.Live q ↔ k.Live q) := by
    intro q hq
    rw [Kernel.Live, Kernel.Live, hfreed.others q hq]
  have hnot : ∀ {q}, k'.Live q → q ≠ p := by
    rintro q hq rfl
    exact hdead hq
  have hheld : k'.Held kstack = fun q => k.Held kstack q ∧ q ≠ (k.proc p).trapframe := by
    funext q
    refine propext ⟨?_, ?_⟩
    · rintro (⟨r, rfl⟩ | ⟨r, hr, rfl⟩)
      · exact ⟨.inl ⟨r, rfl⟩, fun heq => h.trapframe_kstack hlive heq.symm⟩
      · have hrp := hnot hr
        have hr' := (hother hrp).mp hr
        rw [hfreed.others r hrp]
        exact ⟨.inr ⟨r, hr', rfl⟩, fun heq => hrp (h.trapframe_inj hr' hlive heq)⟩
    · rintro ⟨hstack | ⟨r, hr, rfl⟩, hne⟩
      · exact .inl hstack
      · have hrp : r ≠ p := by
          rintro rfl
          exact hne rfl
        exact .inr ⟨r, (hother hrp).mpr hr, by rw [hfreed.others r hrp]⟩
  have hkept : ∀ {t}, t ≠ some p →
      Function.update trees (some p) (fun _ => none) t = trees t :=
    fun ht => Function.update_of_ne ht _ _
  refine ⟨?_, ?_, fun {q} hq => ?_, fun {q} hq => ?_, fun {q} hq => ?_, h.kstack_inj,
    fun {q r} hq hr heq => ?_, fun {q r} hq => ?_⟩
  · rw [hfreed.memory, hheld]
    exact howned
  · rw [hfreed.memory, hkept (by simp), hkernel]
    exact h.kernel.frame (hsame none (by simp))
  · by_cases hqp : q = p
    · rw [hqp, Function.update_self]
    · rw [hkept (by simpa using hqp)]
      exact h.dead (mt (hother hqp).mpr hq)
  · have hqp := hnot hq
    rw [hfreed.memory, hkept (by simpa using hqp), hfreed.others q hqp]
    exact (h.live ((hother hqp).mp hq)).frame (hsame _ (by simpa using hqp))
  · have hqp := hnot hq
    rw [hfreed.others q hqp]
    exact h.root_ne_zero ((hother hqp).mp hq)
  · have hqp := hnot hq
    have hrp := hnot hr
    rw [hfreed.others q hqp, hfreed.others r hrp] at heq
    exact h.trapframe_inj ((hother hqp).mp hq) ((hother hrp).mp hr) heq
  · have hqp := hnot hq
    rw [hfreed.others q hqp]
    exact h.trapframe_kstack ((hother hqp).mp hq)

theorem step {quiet : Bool} {h₀ : H} {w w' : World H} (range : Ranged img)
    (tramp : Trampoline img) (h : PageInv img kstack w.kernel pages trees)
    (hstep : PageStep img quiet h₀ w w') :
    ∃ pages' trees', PageInv img kstack w'.kernel pages' trees' := by
  cases hstep with
  | @allocate p result off idle hunused hrun =>
      have hdead : ¬ w.kernel.Live p := fun hlive => hlive hunused
      by_cases hroom : 4 ≤ pages.length
      · obtain ⟨m, pages', nodes, root, hcomp, -, hpage, hbuilt⟩ :=
          computes_allocFound quiet h₀ p range tramp h.owned
            (h.dead hdead) hroom
        cases hrun.unique (hcomp w off idle rfl)
        refine ⟨pages', _, h.allocate hdead hpage hbuilt rfl (fun q hq => ?_) ?_ ?_ ?_⟩ <;>
          simp [World.withKernel, Kernel.allocated, Kernel.claimed, Kernel.print, Kernel.sends,
            Kernel.pidTaken, Kernel.setProc, Kernel.setShadow, Kernel.Live]
        simp [Function.update_of_ne hq]
      · have hpanic := panics_allocFound quiet h₀ p range tramp
          h.owned (h.dead hdead) (by omega)
        cases hrun.unique (hpanic w off idle rfl)
  | @free p reaper off idle hzombie hrun =>
      have hlive : w.kernel.Live p := by
        rw [Kernel.Live, hzombie]
        decide
      obtain ⟨m, pages', k', hcomp, hfreed, howned, hsame, hkernel⟩ :=
        computes_freeProcess quiet h₀ range h.owned
          (.inr ⟨p, hlive, rfl⟩) (h.live hlive) (h.root_ne_zero hlive) reaper
      cases hrun.unique (hcomp w off idle rfl)
      exact ⟨pages', _, h.free hlive hfreed howned hsame hkernel⟩
  | other hmemory hpages hunused =>
      exact ⟨pages, trees, h.congr hmemory hpages fun p => not_congr (hunused p)⟩

theorem run {quiet : Bool} {h₀ : H} {w w' : World H} (range : Ranged img)
    (tramp : Trampoline img) (h : PageInv img kstack w.kernel pages trees)
    (hrun : ReflTransGen (PageStep img quiet h₀) w w') :
    ∃ pages' trees', PageInv img kstack w'.kernel pages' trees' := by
  induction hrun with
  | refl => exact ⟨pages, trees, h⟩
  | tail _ hstep ih =>
      obtain ⟨pages', trees', h'⟩ := ih
      exact h'.step range tramp hstep

theorem boot {room : Nat} {nodes : Tables} {root : Word} {kstacks : List Word}
    (h : Boot img room m pages nodes root (kernelMap img kstack) kstacks)
    (hkstacks : ∀ q, q ∈ kstacks ↔ ∃ p, kstack p = q)
    (hinj : ∀ p q, kstack p = kstack q → p = q) :
    PageInv img kstack (afterProcinit m) pages (kernelTrees nodes) := by
  have hdead : ∀ p, ¬ (afterProcinit m).Live p := fun p hlive => hlive rfl
  have hheld : (afterProcinit m).Held kstack = (· ∈ kstacks) := by
    funext q
    refine propext ⟨?_, fun hq => .inl ((hkstacks q).mp hq)⟩
    rintro (hstack | ⟨p, hp, -⟩)
    · exact (hkstacks q).mpr hstack
    · exact absurd hp (hdead p)
  refine ⟨?_, ?_, fun _ => rfl, fun hp => absurd hp (hdead _),
    fun hp => absurd hp (hdead _), @hinj, fun hp => absurd hp (hdead _),
    fun hp => absurd hp (hdead _)⟩
  · rw [hheld]
    exact h.owned
  · change Serves m nodes m.kernelPagetable _
    rw [h.kernelPagetable]
    exact h.serves

end PageInv

/-! ## The partition -/

/-- A table found at a level by following valid entries from the root. -/
inductive TableAt (m : Memory) (root : Word) : Nat → Word → Prop where
  | root : TableAt m root 2 root
  | child {level : Nat} {q : Word} (i : Fin 512) (above : TableAt m root (level + 1) q)
      (valid : m.page q i &&& pteV ≠ 0) :
      TableAt m root level (pte2pa (m.page q i))

/-- The table pages of a page table. -/
def IsTable (m : Memory) (root q : Word) : Prop := ∃ level, TableAt m root level q

theorem isTable_iff {m : Memory} {nodes : Tables} (h : Radix sv39 2 m.page nodes)
    {root : Word} (hroot : nodes [] = some root) {q : Word} :
    IsTable m root q ↔ Radix.Owns nodes q := by
  constructor
  · rintro ⟨level, htable⟩
    have hpath : ∃ path, nodes path = some q ∧ path.length + level = 2 := by
      induction htable with
      | root => exact ⟨[], hroot, rfl⟩
      | @child level q i _ valid ih =>
          obtain ⟨path, hpath, hlen⟩ := ih
          obtain ⟨child, hchild⟩ := (h.inner_valid hpath (by omega) i).mp valid
          have htarget : pte2pa (m.page q i) = child :=
            h.target_inner hpath (by omega) hchild
          rw [htarget]
          refine ⟨i :: path, hchild, ?_⟩
          simp only [List.length_cons]
          omega
    obtain ⟨path, hnode, -⟩ := hpath
    exact ⟨path, hnode⟩
  · rintro ⟨path, hpath⟩
    refine ⟨2 - path.length, ?_⟩
    induction path generalizing q with
    | nil =>
        rw [hroot] at hpath
        cases hpath
        exact .root
    | cons i path ih =>
        obtain ⟨parent, hparent⟩ := h.parent hpath
        have hlen := h.bounded hpath
        simp only [List.length_cons] at hlen
        have htarget : pte2pa (m.page parent i) = q :=
          h.target_inner hparent (by omega) hpath
        have hvalid : m.page parent i &&& pteV ≠ 0 :=
          (h.inner_valid hparent (by omega) i).mpr ⟨q, hpath⟩
        have habove := ih hparent
        rw [show 2 - path.length = 2 - (i :: path).length + 1 by
          simp only [List.length_cons]; omega] at habove
        exact htarget ▸ .child i habove hvalid

theorem ProcTables.four {img : Image} {m : Memory} {nodes : Tables} {root page : Word}
    (h : ProcTables img m nodes root) (htree : Radix sv39 2 m.page nodes)
    (hpage : ¬ Radix.Owns nodes page) :
    ∃ level₁ level₀, [page, root, level₁, level₀].Nodup ∧
      ∀ q, IsTable m root q ↔ q ∈ [root, level₁, level₀] := by
  have hroot := h.serves.root
  obtain ⟨level₁, hlevel₁⟩ := (h.paths [255]).mpr (by decide)
  obtain ⟨level₀, hlevel₀⟩ := (h.paths [511, 255]).mpr (by decide)
  have htables : ∀ q, Radix.Owns nodes q ↔ q ∈ [root, level₁, level₀] := by
    intro q
    simp only [List.mem_cons, List.not_mem_nil, or_false]
    constructor
    · rintro ⟨path, hpath⟩
      have hmem := (h.paths path).mp ⟨q, hpath⟩
      simp only [procPaths, List.mem_cons, List.not_mem_nil, or_false] at hmem
      rcases hmem with rfl | rfl | rfl
      · rw [hroot] at hpath
        exact .inl (Option.some.inj hpath).symm
      · rw [hlevel₁] at hpath
        exact .inr (.inl (Option.some.inj hpath).symm)
      · rw [hlevel₀] at hpath
        exact .inr (.inr (Option.some.inj hpath).symm)
    · rintro (rfl | rfl | rfl)
      · exact ⟨[], hroot⟩
      · exact ⟨[255], hlevel₁⟩
      · exact ⟨[511, 255], hlevel₀⟩
  have hne : ∀ {path path' : List (Fin 512)} {q q'}, path ≠ path' →
      nodes path = some q → nodes path' = some q' → q ≠ q' := by
    rintro path path' q q' hpath hq hq' rfl
    exact hpath (htree.injective hq hq')
  refine ⟨level₁, level₀, ?_, fun q => ?_⟩
  · rw [List.nodup_cons, ← htables]
    refine ⟨hpage, ?_⟩
    simp only [List.nodup_cons, List.mem_cons, List.not_mem_nil, or_false, not_or,
      not_false_eq_true, List.nodup_nil, and_true]
    exact ⟨⟨hne (by simp) hroot hlevel₁, hne (by simp) hroot hlevel₀⟩,
      hne (by simp) hlevel₁ hlevel₀⟩
  · rw [isTable_iff htree hroot, htables]

inductive Owner where
  | free
  | kernelTables
  | kstack (p : Slot)
  | trapframe (p : Slot)
  | tables (p : Slot)

/-- Which pages an owner has. -/
def Owner.Has (k : Kernel) (kstack : Slot → Word) : Owner → Word → Prop
  | .free, q => Free k.memory q
  | .kernelTables, q => IsTable k.memory k.memory.kernelPagetable q
  | .kstack p, q => kstack p = q
  | .trapframe p, q => k.Live p ∧ (k.proc p).trapframe = q
  | .tables p, q => k.Live p ∧ IsTable k.memory (k.proc p).pagetable q

section Partition

variable {img : Image} {kstack : Slot → Word} {k : Kernel} {pages : List Word}
  {trees : Option Slot → Tables} {p : Slot}

theorem PageInv.kernel_table (h : PageInv img kstack k pages trees) {q : Word} :
    IsTable k.memory k.memory.kernelPagetable q ↔ Radix.Owns (trees none) q :=
  isTable_iff (h.owned.tree none) h.kernel.root

theorem PageInv.proc_table (h : PageInv img kstack k pages trees) (hp : k.Live p)
    {q : Word} :
    IsTable k.memory (k.proc p).pagetable q ↔ Radix.Owns (trees (some p)) q :=
  isTable_iff (h.owned.tree (some p)) (h.live hp).serves.root

/-- The table an owner's page is in, if it is in one. -/
def Owner.tree : Owner → Option (Option Slot)
  | .kernelTables => some none
  | .tables p => some (some p)
  | .free | .kstack _ | .trapframe _ => none

theorem Owner.tree_inj {owner owner' : Owner} {t : Option Slot} (h : owner.tree = some t)
    (h' : owner'.tree = some t) : owner = owner' := by
  cases owner <;> cases h <;> cases owner' <;> cases h' <;> rfl

/-- Whose pages are no tables and not free. -/
def Owner.Holds (owner : Owner) : Prop :=
  match owner with
  | .kstack _ | .trapframe _ => True
  | .free | .kernelTables | .tables _ => False

theorem PageInv.has (h : PageInv img kstack k pages trees) {owner : Owner} {q : Word}
    (hq : owner.Has k kstack q) :
    (owner = .free ∧ q ∈ pages) ∨
      (∃ t, owner.tree = some t ∧ Radix.Owns (trees t) q) ∨
      (owner.Holds ∧ k.Held kstack q) := by
  cases owner with
  | free => exact .inl ⟨rfl, h.owned.free.free_iff.mp hq⟩
  | kernelTables => exact .inr (.inl ⟨none, rfl, h.kernel_table.mp hq⟩)
  | kstack p => exact .inr (.inr ⟨trivial, .inl ⟨p, hq⟩⟩)
  | trapframe p => exact .inr (.inr ⟨trivial, .inr ⟨p, hq⟩⟩)
  | tables p => exact .inr (.inl ⟨some p, rfl, (h.proc_table hq.1).mp hq.2⟩)

theorem PageInv.cover (h : PageInv img kstack k pages trees) (q : Word) :
    Managed img q ↔ ∃ owner : Owner, owner.Has k kstack q := by
  constructor
  · intro hq
    rcases (h.owned.cover q).mpr hq with hfree | ⟨t, howns⟩ | hstack | ⟨p, hp⟩
    · exact ⟨.free, h.owned.free.free_iff.mpr hfree⟩
    · cases t with
      | none => exact ⟨.kernelTables, h.kernel_table.mpr howns⟩
      | some p =>
          by_cases hp : k.Live p
          · exact ⟨.tables p, hp, (h.proc_table hp).mpr howns⟩
          · rw [h.dead hp] at howns
            obtain ⟨path, hpath⟩ := howns
            cases hpath
    · obtain ⟨p, hp⟩ := hstack
      exact ⟨.kstack p, hp⟩
    · exact ⟨.trapframe p, hp⟩
  · rintro ⟨owner, hq⟩
    rcases h.has hq with ⟨-, hfree⟩ | ⟨t, -, howns⟩ | ⟨-, hheld⟩
    · exact h.owned.managed_free hfree
    · exact h.owned.managed_tree howns
    · exact h.owned.managed_other hheld

theorem PageInv.holder (h : PageInv img kstack k pages trees) {owner owner' : Owner}
    {q : Word} (hholds : owner.Holds) (hholds' : owner'.Holds)
    (hq : owner.Has k kstack q) (hq' : owner'.Has k kstack q) : owner = owner' := by
  cases owner with
  | kstack p =>
      cases owner' with
      | kstack p' => rw [h.kstack_inj (hq.trans hq'.symm)]
      | trapframe p' => exact absurd (hq'.2.trans hq.symm) (h.trapframe_kstack hq'.1)
      | free | kernelTables | tables _ => exact hholds'.elim
  | trapframe p =>
      cases owner' with
      | kstack p' => exact absurd (hq.2.trans hq'.symm) (h.trapframe_kstack hq.1)
      | trapframe p' => rw [h.trapframe_inj hq.1 hq'.1 (hq.2.trans hq'.2.symm)]
      | free | kernelTables | tables _ => exact hholds'.elim
  | free | kernelTables | tables _ => exact hholds.elim

theorem PageInv.apart (h : PageInv img kstack k pages trees) {owner owner' : Owner}
    {q : Word} (hq : owner.Has k kstack q) (hq' : owner'.Has k kstack q) :
    owner = owner' := by
  rcases h.has hq with ⟨rfl, hfree⟩ | ⟨t, htree, howns⟩ | ⟨hholds, hheld⟩ <;>
    rcases h.has hq' with ⟨rfl, hfree'⟩ | ⟨t', htree', howns'⟩ | ⟨hholds', hheld'⟩
  · rfl
  · exact absurd hfree (h.owned.trees_free howns')
  · exact absurd hfree (h.owned.others_free hheld')
  · exact absurd hfree' (h.owned.trees_free howns)
  · obtain rfl := h.owned.trees_apart howns howns'
    exact Owner.tree_inj htree htree'
  · exact absurd howns (h.owned.others_trees hheld')
  · exact absurd hfree' (h.owned.others_free hheld)
  · exact absurd howns' (h.owned.others_trees hheld)
  · exact h.holder hholds hholds' hq hq'

theorem PageInv.four (h : PageInv img kstack k pages trees) (hp : k.Live p) :
    ∃ root level₁ level₀, [(k.proc p).trapframe, root, level₁, level₀].Nodup ∧
      root = (k.proc p).pagetable ∧
        ∀ q, IsTable k.memory (k.proc p).pagetable q ↔ q ∈ [root, level₁, level₀] := by
  obtain ⟨level₁, level₀, hnodup, htables⟩ :=
    (h.live hp).four (h.owned.tree (some p)) (h.owned.others_trees (.inr ⟨p, hp, rfl⟩))
  exact ⟨_, level₁, level₀, hnodup, rfl, htables⟩

end Partition

/-! ## The results -/

section Results

variable {img : Image} {quiet : Bool} {h : H}

/-- There is a run that brings a process to life. -/
theorem exists_live (quiet : Bool) (h : H) (himg : KernelImage img) (tramp : Trampoline img)
    (hroom : (pgRoundUp img.end_).toNat + 138 * 4096 ≤ physTop.toNat) {m₀ m : Memory}
    (hzero : m₀.freelist = 0) (hboot : exec (bootMemory img) m₀ = .ok ((), m)) (p : Slot) :
    ∃ w : World H, ReflTransGen (PageStep img quiet h) (bootWorld m) w ∧
      w.kernel.Live p := by
  obtain ⟨m', pages, nodes, root, kstacks, kstack, hexec, hinit, hlength, hkstacks, hinj⟩ :=
    exec_bootMemory himg hroom (by omega) hzero
  rw [hboot] at hexec
  cases hexec
  have hinv := PageInv.boot hinit hkstacks hinj
  have hpages : 4 ≤ pages.length := hinit.length_pages (by omega)
  -- `alloc_process` gets to the slot with its lock taken.
  let w : World H := (bootWorld m).taken h (.proc p)
  have off : w.Off h := World.off_taken (.inl rfl) _
  have idle : w.Idle := by
    intro lk hlk
    refine (World.lock_taken_other ?_).trans rfl
    rintro rfl
    simp at hlk
  obtain ⟨m', pages', nodes', root', hcomp, -, -, -⟩ :=
    computes_allocFound quiet h p himg.ranged tramp hinv.owned
      (hinv.dead fun hlive => hlive rfl) (by omega)
  have hacquire : PageStep img quiet h (bootWorld m) w :=
    .other rfl (fun _ => ⟨rfl, rfl⟩) fun _ => Iff.rfl
  have halloc := PageStep.allocate (p := p) off idle rfl (hcomp w off idle rfl)
  refine ⟨_, .tail (.single hacquire) halloc, ?_⟩
  simp [World.withKernel, Kernel.allocated, Kernel.claimed, Kernel.print, Kernel.sends, Kernel.setProc,
    Kernel.Live]

theorem sampleImage_ok : KernelImage sampleImage ∧ Trampoline sampleImage ∧
    (pgRoundUp sampleImage.end_).toNat + 138 * 4096 ≤ physTop.toNat :=
  ⟨⟨by decide, by decide, by decide, by decide, by decide⟩, ⟨by decide, by decide⟩,
    by decide⟩

/-- The kernel's pages lie above the text, far from the page at `PGSIZE`. -/
theorem PageInv.trapframe_high (himg : KernelImage img) {kstack : Slot → Word} {k : Kernel}
    {pages : List Word} {trees : Option Slot → Tables} {p : Slot}
    (hinv : PageInv img kstack k pages trees) (hp : k.Live p) :
    (k.proc p).trapframe ≠ pgSize := by
  intro heq
  have hmanaged : Managed img (k.proc p).trapframe :=
    hinv.owned.managed_other (.inr ⟨p, hp, rfl⟩)
  have hlow := hmanaged.2.1
  have hend := (end_le_pgRoundUp himg.below).1
  have htext := himg.text
  have hdata := himg.data
  have hkern := kernBase_toNat
  rw [BitVec.lt_def] at htext hdata
  rw [heq, show pgSize.toNat = 4096 by decide] at hlow
  omega

theorem PageInv.reached (himg : KernelImage img) (tramp : Trampoline img) {m₀ m : Memory}
    (hzero : m₀.freelist = 0) (hboot : exec (bootMemory img) m₀ = .ok ((), m)) {w : World H}
    (hrun : ReflTransGen (PageStep img quiet h) (bootWorld m) w) :
    ∃ kstack pages trees, PageInv img kstack w.kernel pages trees := by
  obtain ⟨m', pages, nodes, root, kstacks, kstack, hexec, hinit, -, hkstacks, hinj⟩ :=
    exec_bootMemory himg himg.room (le_refl _) hzero
  rw [hboot] at hexec
  cases hexec
  exact ⟨kstack, (PageInv.boot hinit hkstacks hinj).run himg.ranged tramp hrun⟩

/-! ### What `TRAPFRAME` leads to -/

/-- `walk_lookup(p->pagetable, TRAPFRAME)` finds a valid R|W entry for the process's
own trapframe. -/
def Kernel.TrapframeMapped (k : Kernel) (p : Slot) : Prop :=
  pteFlags (entryAt k.memory (k.proc p).pagetable trapframeVa) = pteR ||| pteW ||| pteV ∧
    pte2pa (entryAt k.memory (k.proc p).pagetable trapframeVa) = (k.proc p).trapframe

/-- Every process of every state of a run has its trapframe at `TRAPFRAME`. -/
def TrapframesMapped (img : Image) (quiet : Bool) (h : H) (m : Memory) : Prop :=
  ∀ w : World H, ReflTransGen (PageStep img quiet h) (bootWorld m) w →
    ∀ p, w.kernel.Live p → w.kernel.TrapframeMapped p

theorem PageInv.trapframe_entry {kstack : Slot → Word} {k : Kernel} {pages : List Word}
    {trees : Option Slot → Tables} {p : Slot} (hinv : PageInv img kstack k pages trees)
    (hp : k.Live p) :
    entryAt k.memory (k.proc p).pagetable trapframeVa = leafPte pgSize (pteR ||| pteW) := by
  rw [(hinv.live hp).serves.entryAt (hinv.owned.tree (some p)) (by decide) (by decide),
    procMap_trapframe]
  rfl

/-- No process has its trapframe mapped: all share the physical page at `PGSIZE`. -/
theorem trapframe_never_mapped (himg : KernelImage img) (tramp : Trampoline img)
    {m₀ m : Memory} (hzero : m₀.freelist = 0)
    (hboot : exec (bootMemory img) m₀ = .ok ((), m)) {w : World H}
    (hrun : ReflTransGen (PageStep img quiet h) (bootWorld m) w) :
    ∀ p, w.kernel.Live p → ¬ w.kernel.TrapframeMapped p ∧
      ∀ q, w.kernel.Live q →
        pte2pa (entryAt w.kernel.memory (w.kernel.proc p).pagetable trapframeVa) =
          pte2pa (entryAt w.kernel.memory (w.kernel.proc q).pagetable trapframeVa) := by
  obtain ⟨kstack, pages, trees, hinv⟩ := PageInv.reached himg tramp hzero hboot hrun
  intro p hp
  refine ⟨?_, fun q hq => by rw [hinv.trapframe_entry hp, hinv.trapframe_entry hq]⟩
  rintro ⟨-, hpa⟩
  rw [hinv.trapframe_entry hp, leafPte_pa (by decide) (by decide) (by decide)] at hpa
  exact hinv.trapframe_high himg hp hpa.symm

/-- A machine's memory before `pmm_init`, with its kernel in place. -/
theorem exists_bootMemory (himg : KernelImage img) : ∃ m₀ m : Memory,
    m₀.freelist = 0 ∧ exec (bootMemory img) m₀ = .ok ((), m) := by
  let m₀ : Memory := ⟨fun _ => 0, 0, 0⟩
  obtain ⟨m, -, -, -, -, -, hexec, -⟩ :=
    exec_bootMemory himg himg.room (le_refl _) (rfl : m₀.freelist = 0)
  exact ⟨m₀, m, rfl, hexec⟩

theorem trapframe_never_mapped_sample : ∃ w : World Unit, w.kernel.Live ⟨0, by decide⟩ ∧
    ¬ w.kernel.TrapframeMapped ⟨0, by decide⟩ := by
  obtain ⟨himg, tramp, hroom⟩ := sampleImage_ok
  obtain ⟨m₀, m, hzero, hboot⟩ := exists_bootMemory himg
  obtain ⟨w, hrun, hlive⟩ := exists_live false () himg tramp hroom hzero
    hboot ⟨0, by decide⟩
  exact ⟨w, hlive, (trapframe_never_mapped himg tramp hzero hboot hrun _ hlive).1⟩

/-- The first process created has another page at `TRAPFRAME`. -/
theorem trapframe_not_own : ∃ m₀ m : Memory, m₀.freelist = 0 ∧
    exec (bootMemory sampleImage) m₀ = .ok ((), m) ∧
      ¬ TrapframesMapped sampleImage false () m := by
  obtain ⟨himg, tramp, hroom⟩ := sampleImage_ok
  obtain ⟨m₀, m, hzero, hboot⟩ := exists_bootMemory himg
  refine ⟨m₀, m, hzero, hboot, fun hmapped => ?_⟩
  obtain ⟨w, hrun, hlive⟩ := exists_live false () himg tramp hroom hzero
    hboot ⟨0, by decide⟩
  obtain ⟨kstack, pages, trees, hinv⟩ := PageInv.reached himg tramp hzero hboot hrun
  obtain ⟨-, hpa⟩ := hmapped w hrun _ hlive
  rw [hinv.trapframe_entry hlive, leafPte_pa (by decide) (by decide) (by decide)] at hpa
  exact hinv.trapframe_high himg hlive hpa.symm

/-! ### What `TRAMPOLINE` leads to -/

/-- Under both page tables `TRAMPOLINE` is the page of `uservec`, R|X and not for the
user. -/
def Kernel.TrampolineAgrees (img : Image) (k : Kernel) (p : Slot) : Prop :=
  ∀ root ∈ [(k.proc p).pagetable, k.memory.kernelPagetable],
    pteFlags (entryAt k.memory root trampolineVa) = pteR ||| pteX ||| pteV ∧
      pte2pa (entryAt k.memory root trampolineVa) = img.trampoline

/-- In every state of a run every process agrees with the kernel on `TRAMPOLINE`. -/
def TrampolinesAgree (img : Image) (quiet : Bool) (h : H) (m : Memory) : Prop :=
  ∀ w : World H, ReflTransGen (PageStep img quiet h) (bootWorld m) w →
    ∀ p, w.kernel.Live p → w.kernel.TrampolineAgrees img p

theorem trampolineVa_ne_kstack (p : Slot) : trampolineVa ≠ kstackVa p := by
  revert p
  decide

/-- `kvminit` and `procinit` leave `TRAMPOLINE` out. -/
theorem kernelMap_trampoline (himg : KernelImage img) {kstack : Slot → Word} :
    kernelMap img kstack trampolineVa = none := by
  rw [kernelMap_other trampolineVa_ne_kstack]
  exact kvminitMap_high (by decide) himg.etext_le

theorem PageInv.trampoline_kernel (himg : KernelImage img) {kstack : Slot → Word}
    {k : Kernel} {pages : List Word} {trees : Option Slot → Tables}
    (hinv : PageInv img kstack k pages trees) :
    entryAt k.memory k.memory.kernelPagetable trampolineVa = 0 := by
  rw [hinv.kernel.entryAt (hinv.owned.tree none) (by decide) (by decide),
    kernelMap_trampoline himg]
  rfl

theorem PageInv.trampoline_proc {kstack : Slot → Word} {k : Kernel} {pages : List Word}
    {trees : Option Slot → Tables} {p : Slot} (hinv : PageInv img kstack k pages trees)
    (hp : k.Live p) :
    entryAt k.memory (k.proc p).pagetable trampolineVa =
      leafPte img.trampoline (pteR ||| pteX) := by
  rw [(hinv.live hp).serves.entryAt (hinv.owned.tree (some p)) (by decide) (by decide),
    procMap_trampoline]
  rfl

/-- The kernel's page table has nothing at `TRAMPOLINE`, a process's always the
trampoline: they never agree. -/
theorem trampoline_never_agrees (himg : KernelImage img) (tramp : Trampoline img)
    {m₀ m : Memory} (hzero : m₀.freelist = 0)
    (hboot : exec (bootMemory img) m₀ = .ok ((), m)) {w : World H}
    (hrun : ReflTransGen (PageStep img quiet h) (bootWorld m) w) :
    ∀ p, w.kernel.Live p → ¬ w.kernel.TrampolineAgrees img p ∧
      entryAt w.kernel.memory w.kernel.memory.kernelPagetable trampolineVa = 0 ∧
      entryAt w.kernel.memory (w.kernel.proc p).pagetable trampolineVa =
        leafPte img.trampoline (pteR ||| pteX) := by
  obtain ⟨kstack, pages, trees, hinv⟩ := PageInv.reached himg tramp hzero hboot hrun
  intro p hp
  have hkernel := hinv.trampoline_kernel himg
  refine ⟨fun hagrees => ?_, hkernel, hinv.trampoline_proc hp⟩
  obtain ⟨hflags, -⟩ := hagrees _ (List.mem_cons_of_mem _ (List.mem_singleton_self _))
  rw [hkernel] at hflags
  exact absurd hflags (by decide)

theorem trampoline_never_agrees_sample : ∃ w : World Unit, w.kernel.Live ⟨0, by decide⟩ ∧
    ¬ w.kernel.TrampolineAgrees sampleImage ⟨0, by decide⟩ := by
  obtain ⟨himg, tramp, hroom⟩ := sampleImage_ok
  obtain ⟨m₀, m, hzero, hboot⟩ := exists_bootMemory himg
  obtain ⟨w, hrun, hlive⟩ := exists_live false () himg tramp hroom hzero
    hboot ⟨0, by decide⟩
  exact ⟨w, hlive, (trampoline_never_agrees himg tramp hzero hboot hrun _ hlive).1⟩

/-- The first process created already sees a `TRAMPOLINE` that the kernel does not. -/
theorem trampoline_missing : ∃ m₀ m : Memory, m₀.freelist = 0 ∧
    exec (bootMemory sampleImage) m₀ = .ok ((), m) ∧
      ¬ TrampolinesAgree sampleImage false () m := by
  obtain ⟨himg, tramp, hroom⟩ := sampleImage_ok
  obtain ⟨m₀, m, hzero, hboot⟩ := exists_bootMemory himg
  refine ⟨m₀, m, hzero, hboot, fun hagree => ?_⟩
  obtain ⟨w, hrun, hlive⟩ := exists_live false () himg tramp hroom hzero
    hboot ⟨0, by decide⟩
  obtain ⟨kstack, pages, trees, hinv⟩ := PageInv.reached himg tramp hzero hboot hrun
  obtain ⟨hflags, -⟩ :=
    hagree w hrun _ hlive _ (List.mem_cons_of_mem _ (List.mem_singleton_self _))
  rw [hinv.trampoline_kernel himg] at hflags
  exact absurd hflags (by decide)

end Results

end Xv6Kernel.Process
