import Xv6Kernel.Process.PageRuns

/-!
# `create_process` as a whole

On a hart that holds no lock `create_process` either makes one unused slot a
runnable process with four pages of its own, or it never returns: neither of its
two ways to fail answers -1.
-/

namespace Xv6Kernel.Process

open Xv6Kernel.Foundation Xv6Kernel.Mm Relation

variable {H : Type} [DecidableEq H] {img : Image} {quiet : Bool} {h : H} {w : World H}
  {p : Slot} {entry : Word}

/-! ## The search for a slot -/

/-- No lock is taken and the hart has none to give back. -/
structure World.Rests (w : World H) (h : H) : Prop where
  noff : (w.cpus h).noff = 0
  free : ∀ lk, w.lock lk = ⟨none, none⟩

theorem World.Rests.noted (rests : w.Rests h) : (w.noted h).Rests h := by
  refine ⟨?_, rests.free⟩
  simpa [World.noted, World.setCpu] using rests.noff

theorem alone_if_pos {α : Type} {c : Prop} [Decidable c] {yes no : Code H α}
    {r : Except String (α × World H)} (hc : c)
    (hrun : Alone (platform img quiet) h yes w r) :
    Alone (platform img quiet) h (if c then yes else no) w r := by
  rwa [if_pos hc]

theorem alone_if_neg {α : Type} {c : Prop} [Decidable c] {yes no : Code H α}
    {r : Except String (α × World H)} (hc : ¬ c)
    (hrun : Alone (platform img quiet) h no w r) :
    Alone (platform img quiet) h (if c then yes else no) w r := by
  rwa [if_neg hc]

theorem alone_allocScan_skip (rests : w.Rests h) (hused : (w.kernel.proc p).state ≠ .unused)
    {rest : List Slot} {r : Except String (Option Slot × World H)}
    (hrest : Alone (platform img quiet) h (allocScan rest) (w.noted h) r) :
    Alone (platform img quiet) h (allocScan (p :: rest)) w r := by
  have steady : w.Steady h := .inl rests.noff
  refine (alone_acquire (rests.free _)).bind (alone_act_bind (alone_if_neg hused ?_))
  refine (alone_release (World.off_taken steady _) (World.lock_taken_self _)).bind ?_
  rw [World.dropped_taken steady (rests.free _)]
  exact hrest

theorem alone_allocScan_found (img : Image) (quiet : Bool) {ps : List Slot} (rests : w.Rests h)
    (hunused : ∃ p ∈ ps, (w.kernel.proc p).state = .unused) :
    ∃ p ∈ ps, (w.kernel.proc p).state = .unused ∧
      Alone (platform img quiet) h (allocScan ps) w
        (.ok (some p, w.taken h (.proc p))) := by
  induction ps generalizing w with
  | nil =>
      obtain ⟨p, hp, -⟩ := hunused
      cases hp
  | cons q ps ih =>
      by_cases hq : (w.kernel.proc q).state = .unused
      · refine ⟨q, List.mem_cons_self, hq, ?_⟩
        exact (alone_acquire (rests.free _)).bind
          (alone_act_bind (alone_if_pos hq (.done ..)))
      · have hlater : ∃ p ∈ ps, ((w.noted h).kernel.proc p).state = .unused := by
          obtain ⟨p, hp, hstate⟩ := hunused
          rcases List.mem_cons.mp hp with rfl | hp
          · exact absurd hstate hq
          · exact ⟨p, hp, hstate⟩
        obtain ⟨p, hp, hstate, hrun⟩ := ih rests.noted hlater
        rw [World.taken_noted] at hrun
        exact ⟨p, List.mem_cons_of_mem _ hp, hstate, alone_allocScan_skip rests hq hrun⟩

theorem alone_allocScan_none (img : Image) (quiet : Bool) {ps : List Slot} (rests : w.Rests h)
    (hused : ∀ p ∈ ps, (w.kernel.proc p).state ≠ .unused) :
    ∃ w' : World H, Alone (platform img quiet) h (allocScan ps) w (.ok (none, w')) := by
  induction ps generalizing w with
  | nil => exact ⟨w, .done ..⟩
  | cons q ps ih =>
      obtain ⟨w', hrun⟩ := ih rests.noted fun p hp => hused p (List.mem_cons_of_mem _ hp)
      exact ⟨w', alone_allocScan_skip rests (hused q List.mem_cons_self) hrun⟩

/-! ## Making the process runnable -/

/-- The parent of a slot as `create_process` sets it. -/
def Kernel.adopt (p : Slot) (parent : Option Slot) (k : Kernel) : Kernel :=
  if parent.isSome then k.setProc p fun s => { s with parent } else k

/-- What `create_process` makes of the kernel's data once it has the slot. -/
def Kernel.ready (p : Slot) (parent : Option Slot) (entry : Word) (k : Kernel) : Kernel :=
  ((k.adopt p parent).start p parent entry).recordCreated p parent ((k.adopt p parent).shadow p).serial

theorem alone_giveBack {lk : Lock} (steady : w.Steady h) (hfree : w.lock lk = ⟨none, none⟩)
    (k : Kernel) :
    Alone (platform img quiet) h (release lk) ((w.taken h lk).withKernel k)
      (.ok ((), (w.noted h).withKernel k)) := by
  have steady' : (w.withKernel k).Steady h := steady.imp id fun off => ⟨off.noff, off.sie⟩
  have hback : ((w.taken h lk).withKernel k).dropped h lk = (w.noted h).withKernel k :=
    World.dropped_taken steady' hfree
  have off : ((w.taken h lk).withKernel k).Off h := World.off_taken steady' lk
  have hrun : Alone (platform img quiet) h (release lk) _ _ :=
    alone_release off (World.lock_taken_self lk)
  rwa [hback] at hrun

theorem alone_createWith (rests : w.Rests h) (k : Kernel) :
    Alone (platform img quiet) h (createWith p entry)
      ((w.taken h (.proc p)).withKernel k)
      (.ok (((k.ready p (w.cpus h).proc entry).proc p).pid,
        (w.noted h).withKernel (k.ready p (w.cpus h).proc entry))) := by
  have steady : w.Steady h := .inl rests.noff
  have off : ((w.taken h (.proc p)).withKernel k).Off h :=
    ⟨(World.off_taken steady (.proc p)).noff, (World.off_taken steady (.proc p)).sie⟩
  have hproc : (((w.taken h (.proc p)).withKernel k).cpus h).proc = (w.cpus h).proc := by
    simp [World.withKernel, World.taken, World.pushed, World.setLock, World.setCpu,
      World.setSie, World.setCsr]
  have hmyproc : Alone (platform img quiet) h myproc _ _ := alone_myproc (.inr off)
  rw [World.noted_of_off off, hproc] at hmyproc
  refine hmyproc.bind ?_
  -- the rest of the function, with the parent set or not
  have hlast : ∀ k' : Kernel, k' = k.adopt p (w.cpus h).proc →
      Alone (platform img quiet) h (do
        let child ← read fun k => (k.shadow p).serial
        write fun k =>
          (k.setProc p fun s =>
            { s with context := { s.context with s0 := entry }, state := .runnable }).fork
            p (w.cpus h).proc entry
        release (.proc p)
        act fun _ v =>
          ((v.kernel.proc p).pid,
            { v with kernel := v.kernel.recordCreated p (w.cpus h).proc child }) : Code H CInt)
        ((w.taken h (.proc p)).withKernel k')
        (.ok (((k.ready p (w.cpus h).proc entry).proc p).pid,
          (w.noted h).withKernel (k.ready p (w.cpus h).proc entry))) := by
    rintro k' rfl
    refine alone_act_bind (alone_act_bind ((alone_giveBack steady (rests.free _) _).bind ?_))
    exact alone_act _
  cases hparent : (w.cpus h).proc with
  | none =>
      have hlast' := hlast k (by rw [Kernel.adopt, hparent]; rfl)
      rw [hparent] at hlast'
      exact hlast'
  | some c =>
      have hlast' := hlast (k.setProc p fun s => { s with parent := some c })
        (by rw [Kernel.adopt, hparent]; rfl)
      rw [hparent] at hlast'
      have hother : (w.taken h (.proc p)).lock .wait = w.lock .wait :=
        World.lock_taken_other (by simp)
      have hwait : ((w.taken h (.proc p)).withKernel k).lock .wait = ⟨none, none⟩ :=
        hother.trans (rests.free _)
      have hgive : Alone (platform img quiet) h (release .wait) _ _ :=
        alone_giveBack (.inr off) hwait (k.setProc p fun s => { s with parent := some c })
      rw [World.noted_of_off off] at hgive
      exact (alone_acquire hwait).bind (alone_act_bind (hgive.bind hlast'))

/-! ## All or nothing -/

/-- The slot `p` holds the new process, with pages that were free before. -/
structure Created (img : Image) (entry : Word) (w w' : World H) (p : Slot) (pid : CInt) :
    Prop where
  unused : (w.kernel.proc p).state = .unused
  runnable : (w'.kernel.proc p).state = .runnable
  pid : (w'.kernel.proc p).pid = pid
  entry : (w'.kernel.proc p).context.s0 = entry
  others : ∀ q, q ≠ p → w'.kernel.proc q = w.kernel.proc q
  lock : w'.lock = w.lock
  pages : ∃ level₁ level₀,
    [(w'.kernel.proc p).trapframe, (w'.kernel.proc p).pagetable, level₁, level₀].Nodup ∧
    (∀ q, IsTable w'.kernel.memory (w'.kernel.proc p).pagetable q ↔
      q ∈ [(w'.kernel.proc p).pagetable, level₁, level₀]) ∧
    ∀ q ∈ [(w'.kernel.proc p).trapframe, (w'.kernel.proc p).pagetable, level₁, level₀],
      Free w.kernel.memory q ∧ ¬ Free w'.kernel.memory q
  translates : Agrees w'.kernel.memory (w'.kernel.proc p).pagetable (procMap img)

/-- Slots, locks, the set of free pages and all page tables are as before. -/
structure Unchanged (w w' : World H) : Prop where
  proc : w'.kernel.proc = w.kernel.proc
  lock : w'.lock = w.lock
  free : ∀ q, Free w'.kernel.memory q ↔ Free w.kernel.memory q
  tables : ∀ root va, entryAt w'.kernel.memory root va = entryAt w.kernel.memory root va

/-- `create_process` returns, with a new process or with -1 and nothing changed. -/
def AllOrNothing (img : Image) (quiet : Bool) (h : H) (entry : Word) (w : World H) : Prop :=
  ∃ pid w', Alone (platform img quiet) h (createProcess img entry) w (.ok (pid, w')) ∧
    ((∃ p, Created img entry w w' p pid) ∨ pid = -1 ∧ Unchanged w w')

section Outcome

variable {pages : List Word} {trees : Option Slot → Tables} {others : Word → Prop}

theorem World.Rests.off (rests : w.Rests h) (p : Slot) :
    (w.taken h (.proc p)).Off h ∧ (w.taken h (.proc p)).Idle := by
  refine ⟨World.off_taken (.inl rests.noff) _, fun lk hlk => ?_⟩
  refine (World.lock_taken_other ?_).trans (rests.free lk)
  rintro rfl
  simp at hlk

theorem Built.free {m m' : Memory} {pages' : List Word} {nodes : Tables}
    {root page q : Word} (h₀ : Ownership img m pages trees others)
    (hempty : trees (some p) = fun _ => none)
    (hbuilt : Built img m m' pages' trees (fun q => others q ∨ q = page) (some p) nodes root)
    (hq : Radix.Owns nodes q) : q ∈ pages := by
  have howns : Radix.Owns (Function.update trees (some p) nodes (some p)) q := by
    rwa [Function.update_self]
  rcases (h₀.cover q).mpr (hbuilt.owned.managed_tree howns) with hfree | ⟨t, ht⟩ | hother
  · exact hfree
  · by_cases heq : t = some p
    · rw [heq, hempty] at ht
      obtain ⟨path, hpath⟩ := ht
      cases hpath
    · have ht' : Radix.Owns (Function.update trees (some p) nodes t) q := by
        rwa [Function.update_of_ne heq]
      exact absurd (hbuilt.owned.trees_apart ht' howns) heq
  · exact absurd howns (hbuilt.owned.others_trees (.inl hother))

theorem ready_proc (entry : Word) (p : Slot) (parent : Option Slot) (k : Kernel) :
    ((k.ready p parent entry).proc = Function.update k.proc p
      { k.proc p with
        state := .runnable
        parent := if parent.isSome then parent else (k.proc p).parent
        context := { (k.proc p).context with s0 := entry } }) ∧
      (k.ready p parent entry).memory = k.memory := by
  cases parent <;>
    simp [Kernel.ready, Kernel.start, Kernel.adopt, Kernel.fork, Kernel.recordCreated,
      Kernel.record, Kernel.setShadow, Kernel.setProc]

theorem allocated_proc (img : Image) (p : Slot) (m : Memory) (trapframe pagetable : Word)
    (k : Kernel) :
    (∀ q, q ≠ p → (k.allocated img p m trapframe pagetable).proc q = k.proc q) ∧
      ((k.allocated img p m trapframe pagetable).proc p).trapframe = trapframe ∧
      ((k.allocated img p m trapframe pagetable).proc p).pagetable = pagetable := by
  refine ⟨fun q hq => ?_, ?_, ?_⟩ <;>
    simp [Kernel.allocated, Kernel.claimed, Kernel.print, Kernel.sends, Kernel.pidTaken,
      Kernel.setProc, Kernel.setShadow]
  simp [hq]

/-- With a slot and four pages at hand a process is created. -/
theorem createProcess_succeeds (range : Ranged img) (tramp : Trampoline img)
    (rests : w.Rests h) (h₀ : Ownership img w.kernel.memory pages trees others)
    (hempty : ∀ p, (w.kernel.proc p).state = .unused → trees (some p) = fun _ => none)
    (hunused : ∃ p, (w.kernel.proc p).state = .unused) (hroom : 4 ≤ pages.length) :
    AllOrNothing img quiet h entry w := by
  obtain ⟨p, -, hp, hscan⟩ := alone_allocScan_found img quiet
    rests (hunused.imp fun p hp => ⟨List.mem_finRange p, hp⟩)
  obtain ⟨m, pages', nodes, root, hcomp, -, hpage, hbuilt⟩ :=
    computes_allocFound quiet h p range tramp h₀ (hempty p hp) hroom
  have hfound := hcomp _ (rests.off p).1 (rests.off p).2 rfl
  have hcreate : Alone (platform img quiet) h (createWith p entry) _ _ := alone_createWith
    rests (w.kernel.allocated img p m w.kernel.memory.freelist root)
  have halloc : Alone (platform img quiet) h (allocProcess img) w (.ok (some p, _)) :=
    hscan.bind hfound
  refine ⟨_, _, halloc.bind hcreate, .inl ⟨p, ?_⟩⟩
  obtain ⟨hothers, hframe, htable⟩ := allocated_proc img p m
    w.kernel.memory.freelist root w.kernel
  obtain ⟨hready, hmemory⟩ := ready_proc entry p (w.cpus h).proc
    (w.kernel.allocated img p m w.kernel.memory.freelist root)
  have hmemory' : ((w.kernel.allocated img p m w.kernel.memory.freelist root).ready p
      (w.cpus h).proc entry).memory = m := hmemory
  have htree : Radix sv39 2 m.page nodes := by
    have htree := hbuilt.owned.tree (some p)
    rwa [Function.update_self] at htree
  have hown : ∀ q, Radix.Owns nodes q →
      Radix.Owns (Function.update trees (some p) nodes (some p)) q := by
    intro q hq
    rwa [Function.update_self]
  have hapart : ¬ Radix.Owns nodes w.kernel.memory.freelist := fun howns =>
    hbuilt.owned.others_trees (.inr rfl) (hown _ howns)
  obtain ⟨level₁, level₀, hnodup, htables⟩ := hbuilt.tables.four htree hapart
  constructor
  · exact hp
  · simp [World.withKernel, hready]
  · rfl
  · simp [World.withKernel, hready]
  · intro q hq
    simp [World.withKernel, hready, hq, hothers q hq]
  · rfl
  · simp only [World.withKernel, hready, hmemory', Function.update_self, hframe, htable]
    refine ⟨level₁, level₀, hnodup, htables, fun q hq => ?_⟩
    rw [h₀.free.free_iff, hbuilt.owned.free.free_iff]
    rcases List.mem_cons.mp hq with rfl | hq
    · exact ⟨hpage, hbuilt.owned.others_free (.inr rfl)⟩
    · have howns : Radix.Owns nodes q :=
        (isTable_iff htree hbuilt.tables.serves.root).mp ((htables q).mpr hq)
      exact ⟨hbuilt.free h₀ (hempty p hp) howns, hbuilt.owned.trees_free (hown q howns)⟩
  · simp only [World.withKernel, hready, hmemory', Function.update_self, htable]
    exact hbuilt.tables.serves.agrees htree

theorem createProcess_full (rests : w.Rests h)
    (hused : ∀ p, (w.kernel.proc p).state ≠ .unused) :
    Alone (platform img quiet) h (createProcess img entry) w
      (.error "create_process: alloc_process failed") := by
  obtain ⟨w', hscan⟩ := alone_allocScan_none img quiet
    rests (fun p _ => hused p : ∀ p ∈ slots, _)
  have halloc : Alone (platform img quiet) h (allocProcess img) w (.ok (none, w')) :=
    hscan.bind (.done ..)
  exact halloc.bind (alone_panic _)

theorem createProcess_starved (range : Ranged img) (tramp : Trampoline img)
    (rests : w.Rests h) (h₀ : Ownership img w.kernel.memory pages trees others)
    (hempty : ∀ p, (w.kernel.proc p).state = .unused → trees (some p) = fun _ => none)
    (hunused : ∃ p, (w.kernel.proc p).state = .unused) (hroom : pages.length < 4) :
    Alone (platform img quiet) h (createProcess img entry) w (.error "alloc_page") := by
  obtain ⟨p, -, hp, hscan⟩ := alone_allocScan_found img quiet
    rests (hunused.imp fun p hp => ⟨List.mem_finRange p, hp⟩)
  have hpanic := panics_allocFound quiet h p range tramp h₀ (hempty p hp)
    hroom _ (rests.off p).1 (rests.off p).2 rfl
  exact (hscan.bind hpanic).bind_halts

/-- `create_process` keeps its promise exactly when it can succeed. -/
theorem createProcess_allOrNothing (range : Ranged img) (tramp : Trampoline img)
    (rests : w.Rests h) (h₀ : Ownership img w.kernel.memory pages trees others)
    (hempty : ∀ p, (w.kernel.proc p).state = .unused → trees (some p) = fun _ => none) :
    AllOrNothing img quiet h entry w ↔
      (∃ p, (w.kernel.proc p).state = .unused) ∧ 4 ≤ pages.length := by
  constructor
  · rintro ⟨pid, w', hrun, -⟩
    by_contra hfails
    by_cases hunused : ∃ p, (w.kernel.proc p).state = .unused
    · have hroom : pages.length < 4 := by
        by_contra hroom
        exact hfails ⟨hunused, by omega⟩
      cases hrun.unique (createProcess_starved range tramp rests h₀ hempty hunused hroom)
    · cases hrun.unique (createProcess_full rests fun p hp => hunused ⟨p, hp⟩)
  · rintro ⟨hunused, hroom⟩
    exact createProcess_succeeds range tramp rests h₀ hempty hunused hroom

end Outcome

/-- A booted machine with every slot runnable. -/
def crowded (m : Memory) : World Unit :=
  (bootWorld m).withKernel
    { afterProcinit m with proc := fun p =>
        { (afterProcinit m).proc p with state := .runnable } }

theorem crowded_rests (m : Memory) : (crowded m).Rests () := ⟨rfl, fun _ => rfl⟩

theorem createProcess_allOrNothing_crowded :
    ∃ m, AllOrNothing sampleImage false () sampleImage.initTask (bootWorld m) ∧
      ¬ AllOrNothing sampleImage false () sampleImage.initTask (crowded m) := by
  obtain ⟨himg, tramp, hroom⟩ := sampleImage_ok
  let m₀ : Memory := ⟨fun _ => 0, 0, 0⟩
  obtain ⟨m, pages, nodes, root, kstacks, kstack, hexec, hinit, hlength, -, -⟩ :=
    exec_bootMemory himg hroom (by omega) (rfl : m₀.freelist = 0)
  have hpages : 4 ≤ pages.length := hinit.length_pages (by omega)
  refine ⟨m, ?_, fun hall => ?_⟩
  · exact (createProcess_allOrNothing himg.ranged tramp ⟨rfl, fun _ => rfl⟩ hinit.owned
      fun _ _ => rfl).mpr ⟨⟨⟨0, by decide⟩, rfl⟩, hpages⟩
  · obtain ⟨⟨p, hp⟩, -⟩ := (createProcess_allOrNothing himg.ranged tramp (crowded_rests m)
      hinit.owned fun p hp => by cases hp).mp hall
    cases hp

/-- With no slot left the kernel halts. -/
theorem createProcess_halts : ∃ m₀ m : Memory, m₀.freelist = 0 ∧
    exec (bootMemory sampleImage) m₀ = .ok ((), m) ∧
      ¬ AllOrNothing sampleImage false () sampleImage.initTask (crowded m) := by
  obtain ⟨m₀, m, hzero, hboot⟩ := exists_bootMemory sampleImage_ok.1
  refine ⟨m₀, m, hzero, hboot, ?_⟩
  rintro ⟨pid, w', hrun, -⟩
  have hused : ∀ p, ((crowded m).kernel.proc p).state ≠ .unused := fun p hp => by cases hp
  cases hrun.unique (createProcess_full (crowded_rests m) hused)

end Xv6Kernel.Process
