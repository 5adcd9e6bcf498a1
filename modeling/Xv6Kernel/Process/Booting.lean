import Xv6Kernel.Process.Trails

/-!
# From `main` to the first process

On one hart with memory to spare `main` creates its processes in the first slots; the
scheduler then enters the first of them in `forkret`.
-/

namespace Xv6Kernel.Process

open Xv6Kernel.Foundation Xv6Kernel.Mm

variable {img : Image} {quiet : Bool} {w : World Unit} {k k' : Kernel} {proc : Option Slot}
  {cur : Ctx Unit} {sie intena : Bool} {p q : Slot} {entry : Word} {n : Nat}
  {people : List (Slot × Word)} {β : Type} {saved : Ctx Unit → Code Unit Empty}

/-! ## Memory -/

/-- At least `n` pages are free, and unused slots have none. -/
def Room (img : Image) (k : Kernel) (n : Nat) : Prop :=
  ∃ pages, ∃ trees : Option Slot → Tables, ∃ others,
    Ownership img k.memory pages trees others ∧
      (∀ p, k.state p = .unused → trees (some p) = fun _ => none) ∧ n ≤ pages.length

theorem Room.same (room : Room img k n) (hmemory : k'.memory = k.memory)
    (hstate : ∀ p, k'.state p = .unused → k.state p = .unused) : Room img k' n := by
  obtain ⟨pages, trees, others, owned, hempty, hn⟩ := room
  exact ⟨pages, trees, others, hmemory ▸ owned, fun p hp => hempty p (hstate p hp), hn⟩

/-- Without the process in `p` at least `n` pages would be free. -/
def Lease (img : Image) (k : Kernel) (p : Slot) (n : Nat) : Prop :=
  ∃ pages, ∃ trees : Option Slot → Tables, ∃ others,
    Ownership img k.memory pages trees others ∧ others (k.proc p).trapframe ∧
      ProcTables img k.memory (trees (some p)) (k.proc p).pagetable ∧
      (k.proc p).pagetable ≠ 0 ∧
      (∀ q, q ≠ p → k.state q = .unused → trees (some q) = fun _ => none) ∧
      n ≤ pages.length + 4

theorem Lease.same (lease : Lease img k p n) (hmemory : k'.memory = k.memory)
    (hpages : (k'.proc p).trapframe = (k.proc p).trapframe ∧
      (k'.proc p).pagetable = (k.proc p).pagetable)
    (hstate : ∀ q, q ≠ p → k'.state q = .unused → k.state q = .unused) :
    Lease img k' p n := by
  obtain ⟨pages, trees, others, owned, hframe, htables, hroot, hempty, hn⟩ := lease
  refine ⟨pages, trees, others, hmemory ▸ owned, ?_, ?_, ?_,
    fun q hq hunused => hempty q hq (hstate q hq hunused), hn⟩
  · rw [hpages.1]
    exact hframe
  · rw [hmemory, hpages.2]
    exact htables
  · rw [hpages.2]
    exact hroot

theorem Built.room {m m' : Memory} {pages pages' : List Word} {trees : Option Slot → Tables}
    {others : Word → Prop} {nodes : Tables} {root head : Word}
    (owned : Ownership img m pages trees others)
    (built : Built img m m' pages' trees (fun q => others q ∨ q = head) (some p) nodes root) :
    pages.length ≤ pages'.length + 4 := by
  have htree : Radix sv39 2 m'.page nodes := by
    have htree := built.owned.tree (some p)
    rwa [Function.update_self] at htree
  have hmine : ∀ {q}, Radix.Owns nodes q →
      Radix.Owns (Function.update trees (some p) nodes (some p)) q := by
    intro q hq
    rwa [Function.update_self]
  have hapart : ¬ Radix.Owns nodes head := fun howns =>
    built.owned.others_trees (.inr rfl) (hmine howns)
  obtain ⟨level₁, level₀, -, htables⟩ := built.tables.four htree hapart
  have hsub : pages ⊆ pages' ++ [head, root, level₁, level₀] := by
    intro q hq
    have hmanaged := (owned.cover q).mp (.inl hq)
    rcases (built.owned.cover q).mpr hmanaged with hfree | ⟨t, ht⟩ | hother | rfl
    · exact List.mem_append_left _ hfree
    · by_cases heq : t = some p
      · subst heq
        rw [Function.update_self] at ht
        have htable := (isTable_iff htree built.tables.serves.root).mpr ht
        exact List.mem_append_right _ (List.mem_cons_of_mem _ ((htables q).mp htable))
      · rw [Function.update_of_ne heq] at ht
        exact absurd hq (owned.trees_free ht)
    · exact absurd hq (owned.others_free hother)
    · exact List.mem_append_right _ List.mem_cons_self
  have hle := (owned.free.nodup.subperm hsub).length_le
  simpa using hle

theorem exists_room : ∃ m₀ m : Memory, m₀.freelist = 0 ∧
    exec (bootMemory sampleImage) m₀ = .ok ((), m) ∧
      Room sampleImage (afterProcinit m) 16 := by
  obtain ⟨himg, -, -⟩ := sampleImage_ok
  let m₀ : Memory := ⟨fun _ => 0, 0, 0⟩
  have hroom : (pgRoundUp sampleImage.end_).toNat + 150 * 4096 ≤ physTop.toNat := by decide
  obtain ⟨m, pages, nodes, root, kstacks, kstack, hexec, hinit, hlength, -, -⟩ :=
    exec_bootMemory himg hroom (by omega) (rfl : m₀.freelist = 0)
  exact ⟨m₀, m, rfl, hexec, pages, kernelTrees nodes, _, hinit.owned, fun _ _ => rfl,
    hinit.length_pages (by omega)⟩

/-! ## alloc_process -/

theorem World.Guards.idle (guards : w.Guards k proc cur p intena) : w.Idle := by
  intro lk hlk
  refine guards.free lk ?_
  rintro rfl
  simp at hlk

variable (img quiet) in
theorem alone_allocScan {skipped : List Slot} (rest : List Slot) (idles : w.Idles k proc cur sie)
    (hused : ∀ q ∈ skipped, k.state q ≠ .unused) (hp : k.state p = .unused) :
    ∃ w', Alone (platform img quiet) () (allocScan (skipped ++ p :: rest)) w
      (.ok (some p, w')) ∧ w'.Guards k proc cur p sie := by
  induction skipped generalizing w with
  | nil =>
    have hstate : ((w.taken () (.proc p)).kernel.proc p).state = .unused := by
      rw [(idles.taken p).kernel]
      exact hp
    exact ⟨_, (alone_acquire (idles.rests.free _)).bind
      (alone_act_bind (alone_if_pos hstate (.done ..))), idles.taken p⟩
  | cons q skipped ih =>
    obtain ⟨w', hrun, guards⟩ := ih idles.noted fun r hr =>
      hused r (List.mem_cons_of_mem _ hr)
    have hq : (w.kernel.proc q).state ≠ .unused := by
      rw [idles.kernel]
      exact hused q List.mem_cons_self
    exact ⟨w', alone_allocScan_skip idles.rests hq hrun, guards⟩

theorem allocated_self (img : Image) (p : Slot) (m : Memory) (trapframe pagetable : Word)
    (k : Kernel) : (k.allocated img p m trapframe pagetable).proc p =
      { k.proc p with
        pid := k.nextpid
        state := .used
        trapframe, pagetable
        context := { Context.zero with
          ra := img.forkret, sp := (k.proc p).kstack + pgSize } } := by
  simp [Kernel.allocated, Kernel.claimed, Kernel.print, Kernel.sends, Kernel.pidTaken,
    Kernel.setProc, Kernel.setShadow]

variable (quiet) in
theorem alone_allocProcess (skipped : List Slot) {rest : List Slot} (range : Ranged img)
    (tramp : Trampoline img) (idles : w.Idles k proc cur sie) (room : Room img k (n + 4))
    (hslots : slots = skipped ++ p :: rest) (hused : ∀ q ∈ skipped, k.state q ≠ .unused)
    (hp : k.state p = .unused) :
    ∃ w' m trapframe pagetable, Alone (platform img quiet) () (allocProcess img) w
        (.ok (some p, w')) ∧
      w'.Guards (k.allocated img p m trapframe pagetable) proc cur p sie ∧
      Room img (k.allocated img p m trapframe pagetable) n ∧
      Lease img (k.allocated img p m trapframe pagetable) p (n + 4) := by
  obtain ⟨w', hscan, guards⟩ :=
    alone_allocScan img quiet rest idles hused hp
  obtain ⟨pages, trees, others, owned, hempty, hn⟩ := room
  obtain ⟨m, pages', nodes, root, hcomp, -, -, built⟩ :=
    computes_allocFound quiet () p range tramp owned (hempty p hp) (by omega)
  have hle := Built.room owned built
  have hempty' : ∀ q, q ≠ p →
      (k.allocated img p m k.memory.freelist root).state q = .unused →
      Function.update trees (some p) nodes (some q) = fun _ => none := by
    intro q hne hq
    rw [Function.update_of_ne fun heq => hne (Option.some.inj heq)]
    refine hempty q ?_
    rwa [Kernel.state, (allocated_proc img p m _ _ k).1 q hne] at hq
  refine ⟨_, m, k.memory.freelist, root, ?_, guards.withKernel _,
    ⟨pages', _, _, built.owned, fun q hq => hempty' q ?_ hq, by omega⟩,
    pages', _, _, built.owned, .inr ?_, ?_, ?_, hempty', by omega⟩
  · rw [allocProcess, hslots]
    exact hscan.bind (hcomp w' guards.off guards.idle guards.kernel)
  · rintro rfl
    rw [Kernel.state, allocated_self] at hq
    cases hq
  · rw [allocated_self]
  · rw [Function.update_self, allocated_self]
    exact built.tables
  · rw [allocated_self]
    exact built.ne_zero

/-! ## The process table -/

/-- A process that has not run, created by nobody. -/
structure Newborn (img : Image) (entry : Word) (p : Slot) (k : Kernel) : Prop where
  state : (k.proc p).state = .runnable
  ra : (k.proc p).context.ra = img.forkret
  s0 : (k.proc p).context.s0 = entry
  parent : (k.proc p).parent = none
  entry : (k.shadow p).entry = entry
  calledOff : (k.shadow p).calledOff = false

/-- The listed slots hold new processes and the others are unused. -/
structure Peopled (img : Image) (people : List (Slot × Word)) (k : Kernel) : Prop where
  newborn : ∀ {p entry}, (p, entry) ∈ people → Newborn img entry p k
  unused : ∀ {q}, q ∉ people.map Prod.fst →
    (k.proc q).state = .unused ∧ (k.proc q).parent = none

theorem Peopled.same (peopled : Peopled img people k) (hproc : k'.proc = k.proc)
    (hshadow : k'.shadow = k.shadow) : Peopled img people k' := by
  refine ⟨fun hp => ?_, fun hq => ?_⟩
  · obtain ⟨hstate, hra, hs0, hparent, hentry, hoff⟩ := peopled.newborn hp
    constructor <;> simpa only [hproc, hshadow]
  · rw [hproc]
    exact peopled.unused hq

theorem Peopled.used (peopled : Peopled img people k) (hq : q ∈ people.map Prod.fst) :
    k.state q ≠ .unused := by
  obtain ⟨⟨p, entry⟩, hmem, rfl⟩ := List.mem_map.mp hq
  rw [Kernel.state, (peopled.newborn hmem).state]
  simp

theorem Peopled.cons (peopled : Peopled img people k) (hp : p ∉ people.map Prod.fst)
    (hproc : ∀ q, q ≠ p → k'.proc q = k.proc q)
    (hshadow : ∀ q, q ≠ p → k'.shadow q = k.shadow q) (newborn : Newborn img entry p k') :
    Peopled img ((p, entry) :: people) k' := by
  refine ⟨fun {q e} hq => ?_, fun {q} hq => ?_⟩
  · rcases List.mem_cons.mp hq with heq | hmem
    · cases heq
      exact newborn
    · have hne : q ≠ p := by
        rintro rfl
        exact hp (List.mem_map_of_mem (f := Prod.fst) hmem)
      obtain ⟨hstate, hra, hs0, hparent, hentry, hoff⟩ := peopled.newborn hmem
      constructor <;> simpa only [hproc q hne, hshadow q hne]
  · rw [List.map_cons, List.mem_cons, not_or] at hq
    rw [hproc q hq.1]
    exact peopled.unused hq.2

theorem allocated_shadow (img : Image) (p : Slot) (m : Memory) (trapframe pagetable : Word)
    (k : Kernel) (hq : q ≠ p) :
    (k.allocated img p m trapframe pagetable).shadow q = k.shadow q := by
  simp [Kernel.allocated, Kernel.claimed, Kernel.print, Kernel.sends, Kernel.pidTaken, Kernel.setShadow,
    Kernel.setProc, hq]

/-- What `create_process` makes of the data when no process runs. -/
theorem Peopled.create (peopled : Peopled img people k) (hp : p ∉ people.map Prod.fst)
    (entry : Word) (m : Memory) (trapframe pagetable : Word) :
    Peopled img ((p, entry) :: people)
      ((k.allocated img p m trapframe pagetable).ready p none entry) := by
  obtain ⟨hready, -⟩ := ready_proc entry p none (k.allocated img p m trapframe pagetable)
  have hshadow : ∀ k₁ : Kernel, (k₁.ready p none entry).shadow =
      Function.update k₁.shadow p { k₁.shadow p with
        creator := none, entry, phase := .out, window := false, startedOn := false,
        calledOn := false, calledOff := false } := by
    intro k₁
    simp [Kernel.ready, Kernel.start, Kernel.adopt, Kernel.fork, Kernel.recordCreated,
      Kernel.record, Kernel.setShadow, Kernel.setProc]
  refine peopled.cons hp (fun q hq => ?_) (fun q hq => ?_) ⟨?_, ?_, ?_, ?_, ?_, ?_⟩
  · rw [hready, Function.update_of_ne hq, (allocated_proc img p m _ _ k).1 q hq]
  · rw [hshadow, Function.update_of_ne hq, allocated_shadow img p m _ _ k hq]
  · rw [hready, Function.update_self]
  · rw [hready, Function.update_self, allocated_self]
  · rw [hready, Function.update_self]
  · rw [hready, Function.update_self, allocated_self]
    exact (peopled.unused hp).2
  · rw [hshadow, Function.update_self]
  · rw [hshadow, Function.update_self]

/-! ## create_process and userinit -/

theorem World.Guards.myproc (guards : w.Guards k proc cur p intena) :
    Alone (platform img quiet) () (myproc : Code Unit (Option Slot)) w (.ok (proc, w)) := by
  have hrun : Alone (platform img quiet) () (Process.myproc : Code Unit (Option Slot)) _ _ :=
    alone_myproc (.inr guards.off)
  rwa [World.noted_of_off guards.off, guards.proc] at hrun

theorem World.Guards.write (guards : w.Guards k proc cur p intena) (f : Kernel → Kernel) :
    Alone (platform img quiet) () (write f) w (.ok ((), w.withKernel (f k))) := by
  have hrun : Alone (platform img quiet) () (Process.write f) w
      (.ok ((), w.withKernel (f w.kernel))) := alone_act _
  rwa [guards.kernel] at hrun

theorem World.Guards.readProc (guards : w.Guards k proc cur p intena) (q : Slot)
    (f : Proc → β) :
    Alone (platform img quiet) () (readProc q f) w (.ok (f (k.proc q), w)) := by
  have hrun : Alone (platform img quiet) () (Process.readProc q f) w
      (.ok (f (w.kernel.proc q), w)) := alone_act _
  rwa [guards.kernel] at hrun

theorem alone_mycpu : Alone (platform img quiet) () (mycpu : Code Unit Unit) w (.ok ((), w)) :=
  alone_act _

theorem World.Guards.release (guards : w.Guards k proc cur p intena) :
    Alone (platform img quiet) () (release (.proc p)) w (.ok ((), w.dropped () (.proc p))) :=
  alone_release guards.off guards.lock

variable (quiet) in
theorem alone_createProcess (skipped : List Slot) {rest : List Slot} (range : Ranged img)
    (tramp : Trampoline img) (idles : w.Idles k none cur sie) (room : Room img k (n + 4))
    (hslots : slots = skipped ++ p :: rest) (hused : ∀ q ∈ skipped, k.state q ≠ .unused)
    (peopled : Peopled img people k) (hp : p ∉ people.map Prod.fst) (entry : Word) :
    ∃ w' k' pid, Alone (platform img quiet) () (createProcess img entry) w (.ok (pid, w')) ∧
      w'.Idles k' none cur sie ∧ Room img k' n ∧ Peopled img ((p, entry) :: people) k' ∧
      k'.initproc = k.initproc ∧ k'.nextpid = k.nextpid + 1 ∧ k'.born = k.born + 1 := by
  obtain ⟨w₁, m, trapframe, pagetable, halloc, guards, room', -⟩ := alone_allocProcess quiet skipped
    range tramp idles room hslots hused (peopled.unused hp).1
  let k₁ := k.allocated img p m trapframe pagetable
  let w₂ := (w₁.withKernel (k₁.start p none entry)).dropped () (.proc p)
  have idles₂ : w₂.Idles (k₁.start p none entry) none cur sie :=
    (guards.withKernel (k₁.start p none entry)).dropped
  have hrest : Alone (platform img quiet) () (createWith p entry) w₁
      (.ok ((w₂.kernel.proc p).pid,
        w₂.withKernel (w₂.kernel.recordCreated p none (k₁.shadow p).serial))) := by
    refine guards.myproc.bind (alone_act_bind ?_)
    rw [guards.kernel]
    exact (guards.write fun k => k.start p none entry).bind
      ((guards.withKernel _).release.bind (alone_act _))
  refine ⟨_, k₁.ready p none entry, _, halloc.bind hrest, ?_, ?_, peopled.create hp entry m _ _,
    rfl, rfl, rfl⟩
  · rw [idles₂.kernel]
    exact idles₂.withKernel _
  · refine room'.same (ready_proc entry p none k₁).2 fun q hq => ?_
    rw [Kernel.state, (ready_proc entry p none k₁).1] at hq
    by_cases heq : q = p
    · subst heq
      rw [Function.update_self] at hq
      cases hq
    · rwa [Function.update_of_ne heq] at hq

theorem World.Idles.read (idles : w.Idles k proc cur sie) (f : Kernel → β) :
    Alone (platform img quiet) () (Process.read f) w (.ok (f k, w)) := by
  have hrun : Alone (platform img quiet) () (Process.read f) w (.ok (f w.kernel, w)) :=
    alone_act _
  rwa [idles.kernel] at hrun

section Print

variable (k : Kernel) (text : String)

@[simp] theorem print_proc : (k.print text).proc = k.proc := rfl
@[simp] theorem print_shadow : (k.print text).shadow = k.shadow := rfl
@[simp] theorem print_nextpid : (k.print text).nextpid = k.nextpid := rfl
@[simp] theorem print_born : (k.print text).born = k.born := rfl
@[simp] theorem print_initproc : (k.print text).initproc = k.initproc := rfl
@[simp] theorem print_memory : (k.print text).memory = k.memory := rfl
@[simp] theorem print_state : (k.print text).state = k.state := rfl
@[simp] theorem print_parent : (k.print text).parent = k.parent := rfl
@[simp] theorem print_context : (k.print text).context = k.context := rfl

end Print

/-- What `userinit` assigns after `alloc_process`. -/
def Kernel.initialized (img : Image) (p : Slot) (k : Kernel) : Kernel :=
  { (k.setProc p fun s =>
      { s with
        context := { s.context with s0 := img.initTask, ra := img.forkret }
        state := .runnable }).fork p none img.initTask with
    booted := true }

theorem initialized_proc (img : Image) (p : Slot) (k : Kernel) :
    (k.initialized img p).proc = Function.update k.proc p
      { k.proc p with
        context := { (k.proc p).context with s0 := img.initTask, ra := img.forkret }
        state := .runnable } := rfl

theorem initialized_shadow (img : Image) (p : Slot) (k : Kernel) :
    (k.initialized img p).shadow = Function.update k.shadow p
      { k.shadow p with
        creator := none, entry := img.initTask, phase := .out, window := false
        startedOn := false, calledOn := false, calledOff := false } := rfl

variable (quiet) in
theorem alone_userinit {rest : List Slot} (range : Ranged img) (tramp : Trampoline img)
    (idles : w.Idles k none cur sie) (room : Room img k (n + 4))
    (hslots : slots = p :: rest) (peopled : Peopled img [] k) :
    ∃ w' k', Alone (platform img quiet) () (userinit img) w (.ok ((), w')) ∧
      w'.Idles k' none cur sie ∧ Room img k' n ∧ Peopled img [(p, img.initTask)] k' ∧
      k'.initproc = some p ∧ k'.nextpid = k.nextpid + 1 ∧ k'.born = k.born + 1 := by
  have hp : p ∉ ([] : List (Slot × Word)).map Prod.fst := List.not_mem_nil
  obtain ⟨w₁, m, trapframe, pagetable, halloc, guards, room', -⟩ :=
    alone_allocProcess quiet [] range tramp idles room
      hslots (fun _ hq => nomatch hq) (peopled.unused hp).1
  let k₁ := { k.allocated img p m trapframe pagetable with initproc := some p }
  let k₂ := k₁.initialized img p
  have guards₁ := guards.withKernel k₁
  have guards₂ := guards₁.withKernel k₂
  have idles₂ := guards₂.dropped
  obtain ⟨w₃, hprint, idles₃⟩ := alone_printf_idle img quiet idles₂
    ("userinit: created init process pid " ++ decimal (k₂.proc p).pid ++ "\n")
  have hassign : Alone (platform img quiet) () (write fun k => { k with initproc := some p })
      w₁ (.ok ((), w₁.withKernel k₁)) := guards.write _
  refine ⟨w₃, _, halloc.bind (hassign.bind ((guards₁.write (·.initialized img p)).bind
    (guards₂.release.bind ((idles₂.read fun k => (k.proc p).pid).bind hprint)))), idles₃,
    ?_, ?_, print_initproc k₂ _, print_nextpid k₂ _, print_born k₂ _⟩
  · refine room'.same (print_memory k₂ _) fun q hq => ?_
    rw [print_state] at hq
    have hstate : ((k₁.initialized img p).proc q).state = .unused := hq
    rw [initialized_proc] at hstate
    by_cases heq : q = p
    · subst heq
      rw [Function.update_self] at hstate
      cases hstate
    · rwa [Function.update_of_ne heq] at hstate
  · have hself : k₁.proc p = (k.allocated img p m trapframe pagetable).proc p := rfl
    refine Peopled.same (k := k₂) ?_ (print_proc k₂ _) (print_shadow k₂ _)
    refine peopled.cons hp (fun q hq => ?_) (fun q hq => ?_) ⟨?_, ?_, ?_, ?_, ?_, ?_⟩
    · rw [initialized_proc, Function.update_of_ne hq]
      exact (allocated_proc img p m _ _ k).1 q hq
    · rw [initialized_shadow, Function.update_of_ne hq]
      exact allocated_shadow img p m trapframe pagetable k hq
    · rw [initialized_proc, Function.update_self]
    · rw [initialized_proc, Function.update_self]
    · rw [initialized_proc, Function.update_self]
    · rw [initialized_proc, Function.update_self, hself, allocated_self]
      exact (peopled.unused hp).2
    · rw [initialized_shadow, Function.update_self]
    · rw [initialized_shadow, Function.update_self]

/-! ## The scheduler -/

theorem World.Idles.setSie (idles : w.Idles k proc cur sie) (b : Bool) :
    (w.setSie () b).Idles k proc cur b :=
  ⟨idles.kernel, ⟨idles.rests.noff, idles.rests.free⟩, idles.proc, idles.cur,
    by simp [World.setSie, World.setCsr]⟩

/-- What follows a pass over the table. -/
def nextPass (found : Bool) : Code Unit Empty := do
  if !found then
    .perform .wfi
  .perform .scheduling

variable (img quiet saved) in
theorem leads_pass (idles : w.Idles k none (.cpu ()) sie) :
    ∃ w', Reachable (platform img quiet) (lone w (.perform .scheduling) saved)
        (lone w' (schedScan slots false >>= nextPass) saved) ∧
      w'.Idles k none (.cpu ()) false := by
  have idles₁ := idles.setSie true
  have idles₂ := idles₁.setSie false
  refine ⟨_, ?_, idles₂⟩
  have hcall : Reachable (platform img quiet)
      (lone w (Program.perform .scheduling >>= Program.done) saved)
      (lone w (schedulingBody >>= Program.done) saved) := leads_call rfl
  rw [Program.bind_pure'] at hcall
  rw [Program.bind_pure'] at hcall
  refine hcall.trans ?_
  have hon : Alone (platform img quiet) () (intrOn : Code Unit Unit) w
      (.ok ((), w.setSie () true)) := alone_act _
  have hoff : Alone (platform img quiet) () (intrOff : Code Unit Unit) (w.setSie () true)
      (.ok ((), (w.setSie () true).setSie () false)) := alone_act _
  exact (leads_alone hon).trans (leads_alone hoff)

variable (img quiet saved) in
theorem leads_scheduler (idles : w.Idles k none (.cpu ()) sie) :
    ∃ w', Reachable (platform img quiet) (lone w scheduler saved)
        (lone w' (schedScan slots false >>= nextPass) saved) ∧
      w'.Idles k none (.cpu ()) false := by
  have idles₁ : (w.setCpu () fun c => { c with proc := none }).Idles k none (.cpu ()) sie :=
    ⟨idles.kernel, ⟨by simpa [World.setCpu] using idles.rests.noff, idles.rests.free⟩,
      by simp [World.setCpu], idles.cur, idles.sie⟩
  obtain ⟨w', hpass, idles'⟩ := leads_pass img quiet saved idles₁
  have hclear : Alone (platform img quiet) () (writeCpu fun c => { c with proc := none } :
      Code Unit Unit) w (.ok ((), w.setCpu () fun c => { c with proc := none })) := alone_act _
  exact ⟨w', (leads_alone hclear).trans hpass, idles'⟩

/-- The program to which the scheduler comes back from `p`. -/
def afterRun (p : Slot) (rest : List Slot) (next : Bool → Code Unit Empty) :
    Code Unit Empty := do
  writeCpu fun c => { c with proc := none }
  release (.proc p)
  let found ← schedScan rest true
  next found

/-- The way from `m` to `m'` leads over the dispatch of `p`, with the data `k`. -/
def Hands (img : Image) (quiet : Bool) (p : Slot) (k : Kernel)
    (m m' : Config (Instr Unit) Unit (Ctx Unit) (World Unit)) : Prop :=
  ∃ m₁ m₂, Reachable (platform img quiet) m m₁ ∧ Step (platform img quiet) m₁ m₂ ∧
    m₁.world.kernel = k ∧
    m₂.world.kernel = (k.setProc p fun s => { s with state := .running }) ∧
    Reachable (platform img quiet) m₂ m'

section Hands

variable {m m' m'' : Config (Instr Unit) Unit (Ctx Unit) (World Unit)}

theorem Hands.reachable (hands : Hands img quiet p k m m') :
    Reachable (platform img quiet) m m' := by
  obtain ⟨m₁, m₂, hbefore, hstep, -, -, hafter⟩ := hands
  exact (hbefore.tail hstep).trans hafter

theorem Hands.before (hreach : Reachable (platform img quiet) m m')
    (hands : Hands img quiet p k m' m'') : Hands img quiet p k m m'' := by
  obtain ⟨m₁, m₂, hbefore, hrest⟩ := hands
  exact ⟨m₁, m₂, hreach.trans hbefore, hrest⟩

theorem Hands.after (hands : Hands img quiet p k m m')
    (hreach : Reachable (platform img quiet) m' m'') : Hands img quiet p k m m'' := by
  obtain ⟨m₁, m₂, hbefore, hstep, hk₁, hk₂, hafter⟩ := hands
  exact ⟨m₁, m₂, hbefore, hstep, hk₁, hk₂, hafter.trans hreach⟩

end Hands

variable (img quiet saved) in
/-- The scheduler passes over the slots that are not runnable and enters the next. -/
theorem hands_dispatch (skipped rest : List Slot) (found : Bool)
    (next : Bool → Code Unit Empty) (idles : w.Idles k none (.cpu ()) sie)
    (hskip : ∀ q ∈ skipped, (k.proc q).state ≠ .runnable) (hp : (k.proc p).state = .runnable) :
    ∃ w', Hands img quiet p k
        (lone w (schedScan (skipped ++ p :: rest) found >>= next) saved)
        (lone w' ((platform img quiet).resumed saved (.proc p) w')
          (Function.update saved (.cpu ()) (afterRun p rest next))) ∧
      w'.Guards (k.setProc p fun s => { s with state := .running }) (some p) (.proc p) p sie := by
  induction skipped generalizing w with
  | nil =>
    have guards := idles.taken p
    let k' := k.setProc p fun s => { s with state := .running }
    let w₂ : World Unit := { (w.taken () (.proc p)).setCpu () fun c =>
      { c with proc := some p } with kernel := k' }
    let w₃ : World Unit := transfer (.cpu ()) (.proc p) .zero () w₂
    refine ⟨w₃, ?_, ?_⟩
    · simp only [List.nil_append, schedScan, swtchToProc, bind_assoc]
      refine .before (leads_alone (alone_acquire (idles.rests.free _))) ?_
      refine .before (leads_alone (guards.readProc p (·.state))) ?_
      rw [if_pos hp]
      simp only [bind_assoc]
      let rest' : Unit → Code Unit Empty := fun _ => do
        let c ← mycpu
        let regs ← choose Context
        .perform (.swtch (.cpu c) (.proc p) regs)
        afterRun p rest next
      let claim : Unit → World Unit → Unit × World Unit := fun h w =>
        ((), { w.setCpu h (fun c => { c with proc := some p }) with
          kernel := w.kernel.setProc p fun s => { s with state := .running } })
      have hclaim : (claim () (w.taken () (.proc p))).2 = w₂ := by
        simp only [claim, w₂, k', guards.kernel]
      have hstep : Step (platform img quiet)
          (lone (w.taken () (.proc p)) (act claim >>= rest') saved) (lone w₂ (rest' ()) saved) := by
        have hatomic := Step.atomic (P := platform img quiet)
          (m := lone (w.taken () (.proc p)) (act claim >>= rest') saved) () (i := .act claim)
          rfl rfl
        rw [← hclaim, ← lone_update _ (act claim >>= rest')]
        exact hatomic
      refine ⟨_, _, .refl, hstep, guards.kernel, rfl, ?_⟩
      refine (leads_alone alone_mycpu).trans ?_
      exact (leads_choose Context.zero).trans (leads_swtch _ _ _)
    · refine ⟨rfl, guards.lock, guards.free, ?_, ?_, guards.sie, ?_, ?_⟩
      · simpa [w₃, w₂, transfer, World.setCpu] using guards.noff
      · simpa [w₃, w₂, transfer, World.setCpu] using guards.intena
      · simp [w₃, w₂, transfer, World.setCpu]
      · simp [w₃, w₂, transfer, World.setCpu]
  | cons q skipped ih =>
    obtain ⟨w', hreach, guards⟩ := ih idles.noted fun r hr =>
      hskip r (List.mem_cons_of_mem _ hr)
    have taken := idles.taken q
    refine ⟨w', .before ?_ hreach, guards⟩
    simp only [List.cons_append, schedScan, bind_assoc]
    refine (leads_alone (alone_acquire (idles.rests.free _))).trans ?_
    refine (leads_alone (taken.readProc q (·.state))).trans ?_
    rw [if_neg (hskip q List.mem_cons_self)]
    simp only [bind_assoc]
    have hback : Alone (platform img quiet) () (release (.proc q)) (w.taken () (.proc q))
        (.ok ((), _)) := taken.release
    rw [World.dropped_taken idles.steady (idles.rests.free _)] at hback
    exact leads_alone hback

variable (img quiet saved) in
theorem leads_dispatch (skipped rest : List Slot) (found : Bool)
    (next : Bool → Code Unit Empty) (idles : w.Idles k none (.cpu ()) sie)
    (hskip : ∀ q ∈ skipped, (k.proc q).state ≠ .runnable) (hp : (k.proc p).state = .runnable) :
    ∃ w', Reachable (platform img quiet)
        (lone w (schedScan (skipped ++ p :: rest) found >>= next) saved)
        (lone w' ((platform img quiet).resumed saved (.proc p) w')
          (Function.update saved (.cpu ()) (afterRun p rest next))) ∧
      w'.Guards (k.setProc p fun s => { s with state := .running }) (some p) (.proc p) p sie := by
  obtain ⟨w', hands, guards⟩ := hands_dispatch img quiet saved skipped rest found next idles
    hskip hp
  exact ⟨w', hands.reachable, guards⟩

/-! ## forkret -/

theorem alone_deref {target : β} :
    Alone (platform img quiet) () (deref (some target) : Code Unit β) w (.ok (target, w)) :=
  .done ..

theorem resumed_fresh (hra : (w.kernel.proc p).context.ra = img.forkret) :
    (platform img quiet).resumed saved (.proc p) w = forkret := by
  have hfresh : (platform img quiet).fresh (.proc p) w = some forkret := if_pos hra
  rw [Platform.resumed, hfresh]
  rfl

/-- The process is between the release of its lock and the last read of `s0`. -/
def Kernel.entering (p : Slot) (intena : Bool) (k : Kernel) : Kernel :=
  k.setShadow p fun s => { s with window := true, startedOn := intena }

/-- The message of the first process. -/
def Kernel.announced (k : Kernel) : Kernel :=
  if k.first then { k with first := false }.print "init: first process started\n" else k

/-- The process is past the last read of `s0`. -/
def Kernel.entered (p : Slot) (k : Kernel) : Kernel :=
  k.setShadow p fun s => { s with window := false }

/-- After the call of the entry function. -/
def afterEntry : Code Unit Empty := do
  (panic "kernel thread returned" : Code Unit Unit)
  printf "forkret: no kernel task and userret not implemented\n"
  panic "forkret"

/-- `forkret` from the reads of `s0` on. -/
def readEntry (p : Slot) : Code Unit Empty := do
  if (← readProc p (·.context.s0)) ≠ 0 then
    let fn ← act fun _ w =>
      ((w.kernel.proc p).context.s0,
        { w with kernel := w.kernel.setShadow p fun s => { s with window := false } })
    .perform (.enter fn)
    panic "kernel thread returned"
  printf "forkret: no kernel task and userret not implemented\n"
  panic "forkret"

/-- `forkret` after the lock is released. -/
def afterRelease (p : Slot) : Code Unit Empty := do
  if ← read (·.first) then
    write fun k => { k with first := false }
    printf "init: first process started\n"
  readEntry p

variable (img quiet saved) in
theorem leads_forkret (guards : w.Guards k (some p) (.proc p) p intena) :
    ∃ w', Reachable (platform img quiet) (lone w forkret saved)
        (lone w' (afterRelease p) saved) ∧
      w'.Idles (k.entering p intena) (some p) (.proc p) intena := by
  have guards' := guards.withKernel (k.entering p intena)
  refine ⟨_, ?_, guards'.dropped⟩
  refine (leads_alone guards.myproc).trans ?_
  refine (leads_alone alone_deref).trans ?_
  have hnote : Alone (platform img quiet) () (act fun h w =>
      ((), { w with kernel := w.kernel.setShadow p fun s =>
        { s with window := true, startedOn := (w.cpus h).intena } }))
      w (.ok ((), w.withKernel (k.entering p intena))) := by
    refine alone_act_eq ?_
    rw [guards.kernel, guards.intena]
    rfl
  exact (leads_alone hnote).trans (leads_alone guards'.release)

theorem World.Idles.write (idles : w.Idles k proc cur sie) (f : Kernel → Kernel) :
    Alone (platform img quiet) () (Process.write f) w (.ok ((), w.withKernel (f k))) := by
  have hrun : Alone (platform img quiet) () (Process.write f) w
      (.ok ((), w.withKernel (f w.kernel))) := alone_act _
  rwa [idles.kernel] at hrun

variable (img quiet saved) in
theorem leads_readEntry (idles : w.Idles k (some p) (.proc p) sie)
    (hs0 : (k.proc p).context.s0 ≠ 0) :
    Reachable (platform img quiet) (lone w (readEntry p) saved)
      (lone (w.withKernel (k.entered p))
        (Program.perform (.enter (k.proc p).context.s0) >>= fun _ => afterEntry) saved) := by
  refine (leads_alone (idles.read fun k => (k.proc p).context.s0)).trans ?_
  rw [if_pos hs0]
  have hread : Alone (platform img quiet) () (act fun _ w =>
      ((w.kernel.proc p).context.s0,
        { w with kernel := w.kernel.setShadow p fun s => { s with window := false } })) w
      (.ok ((k.proc p).context.s0, w.withKernel (k.entered p))) := by
    refine alone_act_eq ?_
    rw [idles.kernel]
    rfl
  exact leads_alone hread

variable (img quiet saved) in
theorem leads_enter (idles : w.Idles k (some p) (.proc p) sie)
    (hs0 : (k.proc p).context.s0 ≠ 0) :
    ∃ w', Reachable (platform img quiet) (lone w (afterRelease p) saved)
        (lone w' (Program.perform (.enter (k.proc p).context.s0) >>= fun _ => afterEntry)
          saved) ∧
      w'.Idles (k.announced.entered p) (some p) (.proc p) sie := by
  have hfirst : Reachable (platform img quiet) (lone w (afterRelease p) saved)
      (lone w (if k.first then do
          write fun k => { k with first := false }
          printf "init: first process started\n"
          readEntry p
        else readEntry p) saved) := leads_alone (idles.read (·.first))
  cases hf : k.first with
  | false =>
    rw [hf] at hfirst
    refine ⟨_, hfirst.trans (leads_readEntry _ _ _ idles hs0), ?_⟩
    rw [Kernel.announced, hf]
    exact idles.withKernel _
  | true =>
    rw [hf] at hfirst
    have idles₁ := idles.withKernel { k with first := false }
    obtain ⟨w₂, hprint, idles₂⟩ := alone_printf_idle img quiet idles₁
      "init: first process started\n"
    have hlast := leads_readEntry img quiet saved idles₂ hs0
    refine ⟨_, hfirst.trans ((leads_alone (idles.write fun k =>
      { k with first := false })).trans ((leads_alone hprint).trans hlast)), ?_⟩
    rw [Kernel.announced, hf]
    exact idles₂.withKernel _

/-! ## The boot -/

/-- The sample image has text at this address and `forkret` and `init_task` elsewhere. -/
def sampleEntry : Word := kernBase + 0x2000

theorem boot_eq (memory : Memory) (entries : List Word) :
    boot sampleImage () entries memory =
      lone (bootWorld memory) (main sampleImage entries) fun _ => panic "never run" := rfl

theorem idles_bootWorld (memory : Memory) :
    (bootWorld memory : World Unit).Idles (afterProcinit memory) none (.cpu ()) true :=
  ⟨rfl, ⟨rfl, fun _ => rfl⟩, rfl, rfl, rfl⟩

/-- The slots that `main` fills. -/
def slot₀ : Slot := ⟨0, by decide⟩
def slot₁ : Slot := ⟨1, by decide⟩
def slot₂ : Slot := ⟨2, by decide⟩

theorem slots_eq : slots = slot₀ :: slot₁ :: slot₂ :: slots.drop 3 := by decide

/-- What `main` leaves when it has created two processes besides `initproc`. -/
structure Booted (k : Kernel) : Prop where
  peopled : Peopled sampleImage
    [(slot₂, sampleEntry), (slot₁, sampleEntry), (slot₀, sampleImage.initTask)] k
  initproc : k.initproc = some slot₀
  nextpid : k.nextpid = 4
  born : k.born = 3
  room : Room sampleImage k 4

/-- A memory that `main` finds. -/
abbrev SampleMemory := { m : Memory // ∃ m₀ : Memory, m₀.freelist = 0 ∧
  exec (bootMemory sampleImage) m₀ = .ok ((), m) }

theorem leads_main (quiet : Bool) : ∃ m : SampleMemory, ∃ w k,
    Reachable (platform sampleImage quiet) (boot sampleImage () [sampleEntry, sampleEntry] m)
      (lone w scheduler fun _ => panic "never run") ∧
    w.Idles k none (.cpu ()) true ∧ Booted k := by
  obtain ⟨himg, tramp, -⟩ := sampleImage_ok
  obtain ⟨m₀, m, hzero, hboot, room⟩ := exists_room
  have nobody : Peopled sampleImage [] (afterProcinit m) :=
    ⟨(fun hp => nomatch hp), fun _ => ⟨rfl, rfl⟩⟩
  obtain ⟨w₁, k₁, hinit, idles₁, room₁, peopled₁, hk₁, hpid₁, hborn₁⟩ :=
    alone_userinit quiet (n := 12) himg.ranged tramp (idles_bootWorld m) room
      slots_eq nobody
  obtain ⟨w₂, k₂, pid₂, hfirst, idles₂, room₂, peopled₂, hk₂, hpid₂, hborn₂⟩ :=
    alone_createProcess quiet [slot₀] (n := 8) himg.ranged tramp idles₁
      room₁ slots_eq (fun q hq => peopled₁.used hq) peopled₁ (by decide) sampleEntry
  have hused₂ : ∀ q ∈ [slot₀, slot₁], k₂.state q ≠ .unused := fun q hq =>
    peopled₂.used (List.mem_reverse.mp (show q ∈ [slot₁, slot₀].reverse from hq))
  obtain ⟨w₃, k₃, pid₃, hsecond, idles₃, room₃, peopled₃, hk₃, hpid₃, hborn₃⟩ :=
    alone_createProcess quiet [slot₀, slot₁] (n := 4) himg.ranged tramp
      idles₂ room₂ slots_eq hused₂ peopled₂ (by decide) sampleEntry
  refine ⟨⟨m, m₀, hzero, hboot⟩, w₃, k₃, ?_, idles₃, peopled₃,
    hk₃.trans (hk₂.trans hk₁), ?_, ?_, room₃⟩
  rotate_left
  · rw [hpid₃, hpid₂, hpid₁]
    rfl
  · rw [hborn₃, hborn₂, hborn₁]
    rfl
  rw [boot_eq]
  have hcreate : Alone (platform sampleImage quiet) () (Program.forEach
      [sampleEntry, sampleEntry] fun entrypoint => do
        let _ ← createProcess sampleImage entrypoint) w₁ (.ok ((), w₃)) := by
    have one : Alone (platform sampleImage quiet) () (do
        let _ ← createProcess sampleImage sampleEntry) w₁ (.ok ((), w₂)) :=
      hfirst.bind (.done ..)
    have two : Alone (platform sampleImage quiet) () (do
        let _ ← createProcess sampleImage sampleEntry) w₂ (.ok ((), w₃)) :=
      hsecond.bind (.done ..)
    exact one.bind (two.bind (.done ..))
  exact (leads_alone hinit).trans (leads_alone hcreate)

/-- The first run of `initproc` up to the call of `init_task`, with interrupts off. -/
theorem leads_init (quiet : Bool) : ∃ m : SampleMemory, ∃ w k saved,
    Reachable (platform sampleImage quiet) (boot sampleImage () [sampleEntry, sampleEntry] m)
      (lone w (Program.perform (.enter sampleImage.initTask) >>= fun _ => afterEntry) saved) ∧
    w.Idles k (some slot₀) (.proc slot₀) false ∧
    saved (.cpu ()) = afterRun slot₀ (slot₁ :: slot₂ :: slots.drop 3) nextPass ∧
    ∃ k₀, Booted k₀ ∧ k = ((((k₀.setProc slot₀ fun s => { s with state := .running }).entering
      slot₀ false).announced).entered slot₀) := by
  obtain ⟨m, w₀, k₀, hmain, idles₀, booted⟩ := leads_main quiet
  obtain ⟨w₁, hsched, idles₁⟩ := leads_scheduler sampleImage quiet
    (fun _ => panic "never run") idles₀
  have newborn : Newborn sampleImage sampleImage.initTask slot₀ k₀ :=
    booted.peopled.newborn (by simp)
  obtain ⟨w₂, hdispatch, guards⟩ := leads_dispatch sampleImage quiet
    (fun _ => panic "never run") [] (slot₁ :: slot₂ :: slots.drop 3) false nextPass idles₁
    (fun _ hq => nomatch hq) newborn.state
  rw [resumed_fresh (by rw [guards.kernel]; simpa using newborn.ra)] at hdispatch
  obtain ⟨w₃, hforkret, idles₃⟩ := leads_forkret sampleImage quiet
    (Function.update (fun _ => panic "never run") (.cpu ())
      (afterRun slot₀ (slot₁ :: slot₂ :: slots.drop 3) nextPass)) guards
  let k₁ := (k₀.setProc slot₀ fun s => { s with state := .running }).entering slot₀ false
  have hs0 : (k₁.proc slot₀).context.s0 = sampleImage.initTask := by
    simpa [k₁, Kernel.entering] using newborn.s0
  obtain ⟨w₄, henter, idles₄⟩ := leads_enter sampleImage quiet
    (Function.update (fun _ => panic "never run") (.cpu ())
      (afterRun slot₀ (slot₁ :: slot₂ :: slots.drop 3) nextPass)) idles₃
    (by rw [hs0]; decide)
  rw [hs0] at henter
  rw [← slots_eq] at hdispatch
  exact ⟨m, w₄, _, _, hmain.trans (hsched.trans (hdispatch.trans (hforkret.trans henter))),
    idles₄, Function.update_self .., k₀, booted, rfl⟩

end Xv6Kernel.Process
