import Xv6Kernel.Process.PageTables
import Xv6Kernel.Process.Undisturbed

/-!
# The pages of processes

`alloc_process` from the slot found on and `free_process`, as computations on the
kernel's data, and which page belongs to whom before and after them.
-/

namespace Xv6Kernel.Process

open Xv6Kernel.Foundation Xv6Kernel.Mm

variable {H : Type} [DecidableEq H] {img : Image} {quiet : Bool} {h : H} {p : Slot}
  {k : Kernel} {pages : List Word} {trees : Option Slot → Tables} {others : Word → Prop}

/-! ## `alloc_process` -/

/-- After `allocpid`. -/
def Kernel.pidTaken (p : Slot) (k : Kernel) : Kernel :=
  { (k.setShadow p fun s => { s with serial := k.born + 1 }) with
    nextpid := k.nextpid + 1, born := k.born + 1 }

/-- After `alloc_process` has claimed the slot and told so. -/
def Kernel.claimed (p : Slot) (k : Kernel) : Kernel :=
  ((k.pidTaken p).setProc p fun s => { s with pid := k.nextpid, state := .used }).print
    ("alloc_process: allocated process " ++ decimal k.nextpid ++ "\n")

/-- After `alloc_process` has set up the slot with its pages. -/
def Kernel.allocated (img : Image) (p : Slot) (memory : Memory)
    (trapframe pagetable : Word) (k : Kernel) : Kernel :=
  { (k.claimed p).setProc p fun s =>
      { s with
        trapframe, pagetable
        context := { Context.zero with ra := img.forkret, sp := s.kstack + pgSize } } with
    memory }

/-- The last assignments of `create_process`. -/
def Kernel.start (p : Slot) (parent : Option Slot) (entry : Word) (k : Kernel) : Kernel :=
  (k.setProc p fun s =>
    { s with context := { s.context with s0 := entry }, state := .runnable }).fork
    p parent entry

omit [DecidableEq H] in
theorem allocpid_eq (p : Slot) : (allocpid p : Code H CInt) = (do
    acquire .pid
    let answer ← read (·.nextpid) >>= fun pid =>
      write (Kernel.pidTaken p) >>= fun _ => pure pid
    release .pid
    return answer) := by
  simp only [bind_assoc, pure_bind]
  rfl

theorem computes_allocpid (p : Slot) (k : Kernel) :
    Computes img quiet h (allocpid p : Code H CInt) k k.nextpid (k.pidTaken p) := by
  have hpid : Lock.pid ∈ [Lock.print, .pid, .kmem] := by simp
  rw [allocpid_eq]
  refine computes_locked hpid fun w hk => ?_
  subst hk
  exact alone_act_bind (alone_act_bind (.done ..))

theorem computes_claim (p : Slot) (k : Kernel) {rest : Code H α} {value : α} {k' : Kernel}
    (hrest : Computes img quiet h rest (k.claimed p) value k') :
    Computes img quiet h (do
      let pid ← allocpid p
      writeProc p fun s => { s with pid := pid, state := .used }
      printf ("alloc_process: allocated process " ++ decimal pid ++ "\n")
      rest) k value k' :=
  (computes_allocpid p k).bind ((computes_writeProc p _ _).bind
    ((computes_printf _ _).bind hrest))

theorem sameEntries_pop (hfree : k.memory.freelist ≠ 0)
    (h : Ownership img k.memory pages trees others) (t : Option Slot) :
    SameEntries k.memory k.memory.pop trees t := by
  obtain ⟨rest, rfl⟩ := h.free.exists_cons hfree
  exact fun t' _ va => h.pteOf_pop t' va

/-- With four pages free `alloc_process` takes one as trapframe and three for the
page table. -/
theorem computes_allocFound (quiet : Bool) (h : H) (p : Slot) (range : Ranged img)
    (tramp : Trampoline img)
    (h₀ : Ownership img k.memory pages trees others) (hempty : trees (some p) = fun _ => none)
    (hroom : 4 ≤ pages.length) :
    ∃ m pages' nodes root,
      Computes img quiet h (allocFound img p : Code H (Option Slot)) k (some p)
        (k.allocated img p m k.memory.freelist root) ∧
      k.memory.freelist ≠ 0 ∧ k.memory.freelist ∈ pages ∧
      Built img k.memory m pages' trees (fun q => others q ∨ q = k.memory.freelist) (some p)
        nodes root := by
  have hfree : k.memory.freelist ≠ 0 := by
    intro hzero
    have hchain := h₀.free.chain
    rw [hzero] at hchain
    have hnil : pages = [] := hchain.eq_nil_iff.mp rfl
    simp [hnil] at hroom
  obtain ⟨rest, rfl⟩ := h₀.free.exists_cons hfree
  have hsame := sameEntries_pop hfree h₀ (some p)
  rcases exec_procPagetable range tramp h₀.pop hempty with
    ⟨-, m, pages', nodes, root, hexec, hbuilt⟩ | ⟨hlen, -⟩
  · refine ⟨m, pages', nodes, root, ?_, hfree, by simp, hbuilt.owned, hbuilt.tables,
      hbuilt.ne_zero, hsame.trans hbuilt.same, hbuilt.kernelPagetable⟩
    unfold allocFound
    refine computes_claim p k ?_
    have halloc : Computes img quiet h (liftMem allocPage) (k.claimed p)
        k.memory.freelist { k.claimed p with memory := k.memory.pop } :=
      computes_liftMem (exec_allocPage hfree)
    refine Computes.bind halloc (Computes.bind (computes_writeProc _ _ _) ?_)
    rw [if_neg hfree]
    refine Computes.bind (computes_liftMem (k := Kernel.setProc _ _ _) hexec) ?_
    refine Computes.bind (computes_writeProc _ _ _) ?_
    rw [if_neg hbuilt.ne_zero]
    have hlast : (Kernel.allocated img p m k.memory.freelist root k) =
        (({ ({ k.claimed p with memory := k.memory.pop }).setProc p fun s =>
              { s with trapframe := k.memory.freelist } with
            memory := m }).setProc p fun s => { s with pagetable := root }).setProc p fun s =>
          { s with context :=
              { Context.zero with ra := img.forkret, sp := s.kstack + pgSize } } := by
      simp [Kernel.allocated, Kernel.setProc]
    rw [hlast]
    exact Computes.bind (computes_writeProc _ _ _) (computes_done _ _)
  · simp only [List.length_cons] at hroom
    omega

/-- With fewer than four pages free it ends in the panic of `alloc_page`. -/
theorem panics_allocFound (quiet : Bool) (h : H) (p : Slot) (range : Ranged img)
    (tramp : Trampoline img)
    (h₀ : Ownership img k.memory pages trees others) (hempty : trees (some p) = fun _ => none)
    (hroom : pages.length < 4) :
    Panics img quiet h (allocFound img p : Code H (Option Slot)) k "alloc_page" := by
  unfold allocFound
  refine Computes.bind_panics (computes_allocpid p k) (Computes.bind_panics
    (computes_writeProc p _ _) (Computes.bind_panics (computes_printf _ _) ?_))
  by_cases hfree : k.memory.freelist = 0
  · have hempty : exec allocPage (k.claimed p).memory = .error (.panic "alloc_page") :=
      exec_allocPage_empty hfree
    exact (panics_liftMem hempty).bind
  · obtain ⟨rest, rfl⟩ := h₀.free.exists_cons hfree
    rcases exec_procPagetable range tramp h₀.pop hempty with ⟨hlen, -⟩ | ⟨-, hexec⟩
    · simp only [List.length_cons] at hroom
      omega
    · have halloc : Computes img quiet h (liftMem allocPage) (k.claimed p)
          k.memory.freelist { k.claimed p with memory := k.memory.pop } :=
        computes_liftMem (exec_allocPage hfree)
      refine Computes.bind_panics halloc (Computes.bind_panics (computes_writeProc _ _ _) ?_)
      rw [if_neg hfree]
      exact (panics_liftMem hexec).bind

/-! ## `free_process` -/

theorem cleared_proc (p : Slot) (reaper : Option Slot) (k : Kernel) :
    (k.cleared p reaper).proc = Function.update k.proc p (k.proc p).cleared := by
  cases reaper <;> rfl

theorem cleared_memory (p : Slot) (reaper : Option Slot) (k : Kernel) :
    (k.cleared p reaper).memory = k.memory := by
  cases reaper <;> rfl

/-- What `free_process` makes of the slot's data. -/
structure Freed (p : Slot) (k k' : Kernel) (m : Memory) : Prop where
  memory : k'.memory = m
  others : ∀ q, q ≠ p → k'.proc q = k.proc q
  slot : k'.proc p = { (k.proc p).cleared with trapframe := 0 }
  pids : k'.nextpid = k.nextpid ∧ k'.born = k.born
  initproc : k'.initproc = k.initproc

/-- `free_process` gives the trapframe and the three tables back. -/
theorem computes_freeProcess (quiet : Bool) (h : H) (range : Ranged img)
    (h₀ : Ownership img k.memory pages trees others)
    (hframe : others (k.proc p).trapframe)
    (htables : ProcTables img k.memory (trees (some p)) (k.proc p).pagetable)
    (hroot : (k.proc p).pagetable ≠ 0) (reaper : Option Slot) :
    ∃ m pages' k', Computes img quiet h (freeProcess img p reaper : Code H Unit) k () k' ∧
      Freed p k k' m ∧
      Ownership img m pages' (Function.update trees (some p) fun _ => none)
        (fun q => others q ∧ q ≠ (k.proc p).trapframe) ∧
      SameEntries k.memory m trees (some p) ∧
      m.kernelPagetable = k.memory.kernelPagetable := by
  have hmanaged := h₀.managed_other hframe
  have hne : (k.proc p).trapframe ≠ 0 := hmanaged.ne_zero range.ne_zero range.below
  have hpush := h₀.push range hframe
  have hpte := h₀.pteOf_push hframe
  have htables' : ProcTables img (k.memory.push (k.proc p).trapframe) (trees (some p))
      (k.proc p).pagetable :=
    ⟨htables.serves.frame (hpte (some p)), htables.paths⟩
  obtain ⟨m, pages', hexec, howned, hsame, hkernel⟩ :=
    exec_procFreepagetable range hpush htables' (k.proc p).sz
  let k₁ : Kernel := { k with memory := k.memory.push (k.proc p).trapframe }
  let k₂ : Kernel := k₁.setProc p fun s => { s with trapframe := 0 }
  let k₃ : Kernel := { k₂ with memory := m }
  have hproc₂ : k₂.proc p = { k.proc p with trapframe := 0 } := by
    simp [k₂, k₁, Kernel.setProc]
  have hfreePage : Computes img quiet h (liftMem (freePage img (k.proc p).trapframe)) k ()
      k₁ := computes_liftMem (exec_freePage_managed range.below hmanaged)
  have hfreeTable : Computes img quiet h
      (liftMem (procFreepagetable img (k.proc p).pagetable (k.proc p).sz)) k₂ () k₃ :=
    computes_liftMem hexec
  refine ⟨m, pages', k₃.cleared p reaper, ?_, ⟨cleared_memory p reaper k₃, fun q hq => ?_, ?_,
      by cases reaper <;> exact ⟨rfl, rfl⟩, by cases reaper <;> rfl⟩,
    howned, fun t' ht va => (hsame t' ht va).trans (hpte t' va), hkernel⟩
  · refine Computes.bind (computes_readProc p _ k) ?_
    rw [if_pos hne]
    refine Computes.bind hfreePage (Computes.bind (computes_writeProc p _ k₁)
      (Computes.bind (computes_readProc p _ k₂) ?_))
    rw [hproc₂, if_pos hroot]
    refine Computes.bind (computes_readProc p _ k₂) ?_
    rw [hproc₂]
    exact Computes.bind hfreeTable (computes_write (Kernel.cleared p reaper) k₃)
  · rw [cleared_proc, Function.update_of_ne hq]
    exact Function.update_of_ne hq _ _
  · rw [cleared_proc, Function.update_self]
    change (k₂.proc p).cleared = _
    rw [hproc₂]
    rfl

end Xv6Kernel.Process
