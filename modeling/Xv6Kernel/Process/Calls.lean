import Xv6Kernel.Process.Locking
import Xv6Kernel.Process.Writes

/-!
# Loops, `printf` and memory programs

They leave the process table alone, so that whatever is stable before them holds
after them.
-/

namespace Xv6Kernel.Process

open Xv6Kernel.Foundation Xv6Kernel.Mm

/-! ## Memory programs do not panic about locks -/

/-- The instruction is no panic that tells of a broken lock discipline. -/
def MemInstr.Lawful {β : Type} : MemInstr β → Prop
  | .panic message => message ∉ lockPanics
  | .touch _ | .critical _ | .diverge => True

/-- None of the panics of the program is about locks. -/
def Lawful {α : Type} (program : MemM α) : Prop := program.Every MemInstr.Lawful

section Lawful

variable {α β : Type}

theorem Lawful.bind {program : MemM α} {rest : α → MemM β} (h : Lawful program)
    (hrest : ∀ value, Lawful (rest value)) : Lawful (program >>= rest) :=
  Program.Every.bind h hrest

theorem lawful_touch (f : Memory → α × Memory) : Lawful (touch f) :=
  Program.every_perform trivial

theorem lawful_critical (f : Memory → α × Memory) : Lawful (critical f) :=
  Program.every_perform trivial

theorem lawful_diverge : Lawful (diverge : MemM α) := Program.every_perform trivial

theorem lawful_panic {message : String} (h : message ∉ lockPanics) :
    Lawful (Mm.panic message : MemM α) := Program.every_perform h

theorem lawful_pure (value : α) : Lawful (pure value : MemM α) := trivial

theorem lawful_ite {c : Prop} [Decidable c] {p q : MemM α} (hp : Lawful p)
    (hq : Lawful q) : Lawful (if c then p else q) := by
  split
  · exact hp
  · exact hq

theorem lawful_forEach {ι : Type} {items : List ι} {body : ι → MemM Unit}
    (h : ∀ item, Lawful (body item)) : Lawful (Program.forEach items body) := by
  induction items with
  | nil => exact trivial
  | cons item items ih => exact (h item).bind fun _ => ih

theorem lawful_allocPage : Lawful allocPage := by
  have last : ∀ r : Word, Lawful (do
      if r = 0 then
        Mm.panic "alloc_page"
      return r) := fun r =>
    lawful_ite ((lawful_panic (by decide)).bind fun _ => trivial) trivial
  refine (lawful_critical _).bind fun r => lawful_ite ?_ (last r)
  exact (lawful_touch _).bind fun _ => last r

theorem lawful_freePage (img : Image) (page : Word) : Lawful (freePage img page) :=
  lawful_ite ((lawful_panic (by decide)).bind fun _ =>
      (lawful_touch _).bind fun _ => lawful_critical _)
    ((lawful_touch _).bind fun _ => lawful_critical _)

theorem lawful_walkLookupFrom (va : Word) (level : Nat) (pt : Word) :
    Lawful (walkLookupFrom va level pt) := by
  induction level generalizing pt with
  | zero => exact trivial
  | succ level ih =>
      exact (lawful_touch _).bind fun pte => lawful_ite trivial (ih _)

theorem lawful_walkCreateFrom (va : Word) (level : Nat) (pt : Word) :
    Lawful (walkCreateFrom va level pt) := by
  induction level generalizing pt with
  | zero => exact trivial
  | succ level ih =>
      have down : ∀ pt, Lawful (load pt >>= fun entry =>
          walkCreateFrom va level (pte2pa entry)) :=
        fun pt => (lawful_touch _).bind fun entry => ih _
      refine (lawful_touch _).bind fun entry => lawful_ite ?_ (down _)
      refine lawful_allocPage.bind fun newPage => lawful_ite trivial ?_
      exact (lawful_touch _).bind fun _ => (lawful_touch _).bind fun _ => down _

theorem lawful_mapPage (pt va pa perm : Word) : Lawful (mapPage pt va pa perm) := by
  refine lawful_ite trivial ((lawful_walkCreateFrom va 2 pt).bind fun pte => ?_)
  refine lawful_ite trivial ((lawful_touch _).bind fun entry => lawful_ite ?_ ?_)
  · exact (lawful_panic (by decide)).bind fun _ => (lawful_touch _).bind fun _ => trivial
  · exact (lawful_touch _).bind fun _ => trivial

theorem lawful_unmapPage (pt va : Word) : Lawful (unmapPage pt va) := by
  have last : ∀ pte, Lawful (do
      if (← load pte) &&& pteV = 0 then
        Mm.panic "unmap_page: not mapped"
      store pte 0) := fun pte =>
    (lawful_touch _).bind fun entry => lawful_ite
      ((lawful_panic (by decide)).bind fun _ => lawful_touch _) (lawful_touch _)
  refine (lawful_walkLookupFrom va 2 pt).bind fun pte => lawful_ite ?_ (last pte)
  exact (lawful_panic (by decide)).bind fun _ => last pte

theorem lawful_destroyFrom (img : Image) (depth : Nat) (pt : Word) :
    Lawful (destroyFrom img depth pt) := by
  induction depth generalizing pt with
  | zero => exact lawful_diverge
  | succ depth ih =>
      rw [destroyFrom]
      generalize List.finRange 512 = entries
      refine Lawful.bind (lawful_forEach fun i => ?_)
        fun _ => lawful_freePage img pt
      refine (lawful_touch _).bind fun pte => lawful_ite (ih _) (lawful_ite ?_ trivial)
      exact lawful_freePage img _

theorem lawful_destroyPagetable (img : Image) (pt : Word) :
    Lawful (destroyPagetable img pt) := by
  unfold destroyPagetable
  generalize 2 ^ 52 + 1 = depth
  exact lawful_destroyFrom img depth pt

attribute [local irreducible] destroyPagetable

theorem lawful_createPagetable : Lawful createPagetable :=
  lawful_allocPage.bind fun _ => lawful_ite trivial
    ((lawful_touch _).bind fun _ => lawful_pure _)

theorem lawful_procPagetable (img : Image) : Lawful (procPagetable img) := by
  have destroy : ∀ pt, Lawful (do
      destroyPagetable img pt
      return (0 : Word)) := fun pt =>
    (lawful_destroyPagetable img pt).bind fun _ => lawful_pure _
  refine lawful_createPagetable.bind fun pt => lawful_ite trivial ?_
  refine (lawful_mapPage _ _ _ _).bind fun r => lawful_ite (destroy pt) ?_
  refine (lawful_mapPage _ _ _ _).bind fun r => lawful_ite ?_ trivial
  exact (lawful_unmapPage _ _).bind fun _ => destroy pt

theorem lawful_procFreepagetable (img : Image) (pt sz : Word) :
    Lawful (procFreepagetable img pt sz) :=
  (lawful_unmapPage _ _).bind fun _ => (lawful_unmapPage _ _).bind fun _ =>
    lawful_destroyPagetable img pt

end Lawful

/-! ## Loops and output -/

variable {H : Type} [DecidableEq H] {S : Setting H} {α β ι : Type} {l : Local H}
  {F : Kernel → Prop}

theorem Triple.untouched {f : Kernel → β × Kernel} (hF : Stable S l F)
    (h : ∀ k, Untouched k (f k).2) :
    Triple S l F (Process.act fun _ w =>
      ((f w.kernel).1, { w with kernel := (f w.kernel).2 })) (fun _ => l) fun _ => F :=
  .readWrite hF fun _ w inv on hf =>
    ⟨(h w.kernel).change inv on, hF _ _ (h w.kernel).frame hf⟩

/-- The assertion may speak of the items that are left. -/
theorem Triple.forEach {items : List ι} {body : ι → Code H Unit}
    {F : List ι → Kernel → Prop}
    (h : ∀ item rest, Triple S l (F (item :: rest)) (body item) (fun _ => l)
      fun _ => F rest) :
    Triple S l (F items) (Program.forEach items body) (fun _ => l) fun _ => F [] := by
  induction items with
  | nil => exact .pure (fun _ => id) rfl
  | cons item items ih => exact (h item items).bind fun _ => ih

/-! ## Releasing -/

omit [DecidableEq H] in
/-- A process about to sleep for a child holds `wait_lock` or its own lock. -/
theorem On.armed {h : H} {w : World H} {p : Slot} (on : On l h w) (inv : Inv S.img w)
    (hctx : l.ctx = .proc p) (harmed : w.kernel.phase p = .armed) :
    l.held .wait ∨ l.held (.proc p) := by
  have hcur : w.cur h = .proc p := on.ctx.trans hctx
  rcases inv.armed harmed with ⟨hsleep, -⟩ | ⟨h', hcur', hlk⟩
  · rcases inv.cur_state hcur with hrun | hlk
    · rw [hsleep] at hrun
      cases hrun
    · exact .inr ((on.held _).mp hlk)
  · obtain rfl := inv.cur_inj hcur' hcur
    exact hlk.imp (on.held _).mp (on.held _).mp

omit [DecidableEq H] in
theorem On.releasable {h : H} {w : World H} {lk : Lock} (on : On l h w)
    (inv : Inv S.img w)
    (hcalm : lk = .wait → Calm w.kernel.state w.kernel.parent w.kernel.phase)
    (hown : ∀ p, l.ctx = .proc p → lk = .proc p → w.kernel.state p = .running)
    (harmed : ∀ p, l.ctx = .proc p → lk = .wait ∨ lk = .proc p →
      w.kernel.phase p = .armed →
        l.held .wait ∧ lk ≠ .wait ∨ l.held (.proc p) ∧ lk ≠ .proc p) :
    Releasable l lk w.kernel where
  running := hown
  calm := hcalm
  armed p hctx hp := by
    by_cases hlk : lk = .wait ∨ lk = .proc p
    · exact harmed p hctx hlk hp
    · rw [not_or] at hlk
      exact (on.armed inv hctx hp).imp (fun h => ⟨h, hlk.1⟩) fun h => ⟨h, hlk.2⟩

theorem Triple.releaseLast {lk : Lock} {G : Kernel → Prop}
    (hF : Stable S { l with locks := lk :: l.locks } F) (hG : Stable S l G)
    (hFG : ∀ k, F k → G k) (hhalf : l.half = none) (hdepth : l.depth = 0)
    (hproc : l.proc = l.ctx.slot)
    (hrel : ∀ h w, Inv S.img w → On { l with locks := lk :: l.locks } h w → F w.kernel →
      Releasable { l with locks := lk :: l.locks } lk w.kernel) :
    Triple S { l with locks := lk :: l.locks } F (Process.release lk : Code H Unit)
      (fun _ => l) fun _ => G := by
  have hsame : { l with locks := (lk :: l.locks).erase lk } = l := by simp
  have triple : Triple S { l with locks := lk :: l.locks } F (Process.release lk)
      (fun _ => { l with locks := (lk :: l.locks).erase lk }) fun _ => G :=
    .release hF (by rwa [hsame]) hFG hhalf hdepth (by simp) hproc hrel
  rwa [hsame] at triple

omit [DecidableEq H] in
/-- With one more lock a program may rely on as much. -/
theorem Stable.cons (hF : Stable S l F) (lk : Lock) :
    Stable S { l with locks := lk :: l.locks } F :=
  hF.more rfl fun _ h => h.imp (List.mem_cons_of_mem _) id

/-- A critical section under a lock that protects neither processes nor their
parents. -/
theorem Triple.locked {lk : Lock} {body : Code H β} {K : β → Kernel → Prop}
    (hF : Stable S l F) (hK : ∀ b, Stable S l (K b)) (hhalf : l.half = none)
    (hdepth : l.depth = 0)
    (hlk : lk ∉ l.locks) (hproc : l.proc = l.ctx.slot) (hwait : lk ≠ .wait)
    (hown : ∀ p, lk ≠ .proc p)
    (hbody : Triple S { l with locks := lk :: l.locks } F body
      (fun _ => { l with locks := lk :: l.locks }) K) :
    Triple S l F (do
      Process.acquire lk
      let b ← body
      Process.release lk
      return b) (fun _ => l) K := by
  refine (Triple.acquire hF hhalf hdepth hlk).bind fun _ => ?_
  refine (hbody.pre fun _ => And.left).bind fun b => ?_
  refine (Triple.releaseLast ((hK b).cons lk) (hK b) (fun _ => id) hhalf hdepth hproc
    fun h w inv on _ => ?_).bind fun _ => .pure (fun _ => id) rfl
  exact on.releasable inv (fun heq => absurd heq hwait)
    (fun p _ heq => absurd heq (hown p))
    fun p _ heq => absurd heq (not_or.mpr ⟨hwait, hown p⟩)

theorem Triple.printf (hF : Stable S l F) (hhalf : l.half = none) (hdepth : l.depth = 0)
    (hlk : .print ∉ l.locks) (hproc : l.proc = l.ctx.slot) (text : String) :
    Triple S l F (Process.printf text : Code H Unit) (fun _ => l) fun _ => F := by
  refine (Triple.untouched (f := fun k => (k.calls, { k with calls := k.calls + 1 })) hF
    fun _ => ⟨rfl, rfl, rfl, rfl, rfl, rfl, rfl⟩).bind fun call => ?_
  refine Triple.locked hF (fun _ => hF) hhalf hdepth hlk hproc nofun nofun ?_
  refine Triple.forEach (F := fun _ => F) fun c _ => ?_
  exact Triple.untouched
    (f := fun k => ((), { k with console := c :: k.console, senders := call :: k.senders }))
    (hF.cons _) fun _ => ⟨rfl, rfl, rfl, rfl, rfl, rfl, rfl⟩

theorem Triple.liftMem {program : MemM α} (lawful : Lawful program) (hF : Stable S l F)
    (hhalf : l.half = none) (hdepth : l.depth = 0) (hlk : .kmem ∉ l.locks)
    (hproc : l.proc = l.ctx.slot) :
    Triple S l F (Process.liftMem program : Code H α) (fun _ => l) fun _ => F := by
  have memory : ∀ {l' : Local H} {γ : Type} (f : Memory → γ × Memory), Stable S l' F →
      Triple S l' F (Process.act fun _ w => ((f w.kernel.memory).1,
        { w with kernel := { w.kernel with memory := (f w.kernel.memory).2 } }))
        (fun _ => l') fun _ => F := fun f hF' =>
    Triple.untouched (f := fun k => ((f k.memory).1, { k with memory := (f k.memory).2 }))
      hF' fun _ => ⟨rfl, rfl, rfl, rfl, rfl, rfl, rfl⟩
  induction program with
  | done value => exact .pure (fun _ => id) rfl
  | step instruction next ih =>
      cases instruction with
      | touch f => exact (memory f hF).bind fun answer => ih answer (lawful.2 answer)
      | critical f =>
          have section_ := Triple.locked hF (fun _ => hF) hhalf hdepth hlk
            hproc nofun nofun (memory f (hF.cons _))
          have := section_.bind fun answer => ih answer (lawful.2 answer)
          simpa [Process.liftMem] using this
      | panic message => exact .panic lawful.1
      | diverge =>
          exact .call rfl hF (fun _ _ _ _ _ => trivial) fun _ _ _ _ _ _ never => never.elim

end Xv6Kernel.Process
