import Xv6Kernel.Process.Interruption

/-!
# A process and its child

A process creates a child, the child exits, and `wait_process` gives its pages back.
-/

namespace Xv6Kernel.Process

open Xv6Kernel.Foundation Xv6Kernel.Mm

variable {img : Image} {quiet : Bool} {w : World Unit} {k k' : Kernel} {cur : Ctx Unit}
  {sie intena : Bool} {p q c : Slot} {n : Nat} {entry : Word}

/-! ## The pages of a process -/

/-- The four pages of a process are free once it is gone. -/
theorem Ownership.returned {m m' : Memory} {pages pages' : List Word}
    {trees : Option Slot → Tables} {others : Word → Prop} {head root : Word}
    (owned : Ownership img m pages trees others) (hhead : others head)
    (tables : ProcTables img m (trees (some p)) root)
    (owned' : Ownership img m' pages' (Function.update trees (some p) fun _ => none)
      fun q => others q ∧ q ≠ head) : pages.length + 4 ≤ pages'.length := by
  have htree := owned.tree (some p)
  obtain ⟨level₁, level₀, hnodup, htables⟩ := tables.four htree (owned.others_trees hhead)
  have howns : ∀ {q}, q ∈ [root, level₁, level₀] → Radix.Owns (trees (some p)) q :=
    fun hq => (isTable_iff htree tables.serves.root).mp ((htables _).mpr hq)
  -- what is managed is free, owned by another slot, or held as before
  have hfree : ∀ {q}, Managed img q → (∀ t, t ≠ some p → ¬ Radix.Owns (trees t) q) →
      ¬ (others q ∧ q ≠ head) → q ∈ pages' := by
    intro q hmanaged hnot hother
    rcases (owned'.cover q).mpr hmanaged with hq | ⟨t, ht⟩ | hq
    · exact hq
    · by_cases heq : t = some p
      · rw [heq, Function.update_self] at ht
        obtain ⟨path, hpath⟩ := ht
        cases hpath
      · rw [Function.update_of_ne heq] at ht
        exact absurd ht (hnot t heq)
    · exact absurd hq hother
  have hsub : pages ++ [head, root, level₁, level₀] ⊆ pages' := by
    intro q hq
    rcases List.mem_append.mp hq with hq | hq
    · exact hfree ((owned.cover q).mp (.inl hq)) (fun t _ ht => owned.trees_free ht hq)
        fun hother => owned.others_free hother.1 hq
    · rcases List.mem_cons.mp hq with rfl | hq
      · exact hfree (owned.managed_other hhead) (fun t _ ht => owned.others_trees hhead ht)
          fun hother => hother.2 rfl
      · exact hfree (owned.managed_tree (howns hq))
          (fun t hne ht => hne (owned.trees_apart ht (howns hq)))
          fun hother => owned.others_trees hother.1 (howns hq)
  have hnodup' : (pages ++ [head, root, level₁, level₀]).Nodup := by
    refine List.nodup_append.mpr ⟨owned.free.nodup, hnodup, fun a ha b hb heq => ?_⟩
    subst heq
    rcases List.mem_cons.mp hb with rfl | hb
    · exact owned.others_free hhead ha
    · exact owned.trees_free (howns hb) ha
  have hle := (hnodup'.subperm hsub).length_le
  simpa using hle

variable (quiet) in
theorem Lease.freed (lease : Lease img k p n) (range : Ranged img) (reaper : Option Slot) :
    ∃ m k', Computes img quiet () (freeProcess img p reaper : Code Unit Unit) k () k' ∧
      Freed p k k' m ∧ Room img k' n := by
  obtain ⟨pages, trees, others, owned, hframe, htables, hroot, hempty, hn⟩ := lease
  obtain ⟨m, pages', k', hcomp, hfreed, owned', -, -⟩ :=
    computes_freeProcess quiet () range owned hframe htables hroot reaper
  have hle := Ownership.returned owned hframe htables owned'
  refine ⟨m, k', hcomp, hfreed, pages', _, _, hfreed.memory ▸ owned', fun q hq => ?_, by omega⟩
  by_cases heq : q = p
  · rw [heq, Function.update_self]
  · rw [Function.update_of_ne fun h => heq (Option.some.inj h)]
    refine hempty q heq ?_
    rwa [Kernel.state, hfreed.others q heq] at hq

/-! ## create_process -/

variable (img quiet) in
theorem alone_createWith_child (guards : w.Guards k (some c) cur p intena) (entry : Word) :
    ∃ w', Alone (platform img quiet) () (createWith p entry) w
        (.ok (((k.ready p (some c) entry).proc p).pid, w')) ∧
      w'.Idles (k.ready p (some c) entry) (some c) cur intena := by
  let k₁ := k.setProc p fun s => { s with parent := some c }
  have hwait : w.lock .wait = ⟨none, none⟩ := guards.free _ (by simp)
  have guards₁ : (w.withKernel k₁).Guards k₁ (some c) cur p intena := guards.withKernel k₁
  have guards₂ := guards₁.withKernel (k₁.start p (some c) entry)
  have idles := guards₂.dropped
  have hparent : Alone (platform img quiet) () (writeProc p fun s => { s with parent := some c })
      (w.taken () .wait) (.ok ((), (w.taken () .wait).withKernel k₁)) := by
    have hrun : Alone (platform img quiet) () (writeProc p fun s => { s with parent := some c })
        (w.taken () .wait) (.ok ((), (w.taken () .wait).withKernel
          (w.kernel.setProc p fun s => { s with parent := some c }))) := alone_act _
    rwa [guards.kernel] at hrun
  have hgive : Alone (platform img quiet) () (release .wait) ((w.taken () .wait).withKernel k₁)
      (.ok ((), (w.noted ()).withKernel k₁)) := alone_giveBack (.inr guards.off) hwait k₁
  rw [World.noted_of_off guards.off] at hgive
  have hstart : Alone (platform img quiet) () (write fun k => k.start p (some c) entry)
      (w.withKernel k₁) (.ok ((), _)) := guards₁.write _
  have hrelease : Alone (platform img quiet) () (release (.proc p)) _ _ := guards₂.release
  have hmyproc : Alone (platform img quiet) () (myproc : Code Unit (Option Slot)) w _ :=
    guards.myproc
  refine ⟨_, hmyproc.bind (alone_if_pos rfl ?_), idles.withKernel _⟩
  refine (alone_acquire hwait).bind (hparent.bind (hgive.bind (alone_act_bind
    (hstart.bind (hrelease.bind ?_)))))
  refine alone_act_eq ?_
  rw [idles.kernel]
  rfl

variable (quiet) in
theorem alone_createChild (skipped : List Slot) {rest : List Slot} (range : Ranged img)
    (tramp : Trampoline img) (idles : w.Idles k (some c) cur sie) (room : Room img k (n + 4))
    (hslots : slots = skipped ++ p :: rest) (hused : ∀ q ∈ skipped, k.state q ≠ .unused)
    (hp : k.state p = .unused) (entry : Word) :
    ∃ w' m trapframe pagetable pid,
      Alone (platform img quiet) () (createProcess img entry) w (.ok (pid, w')) ∧
      w'.Idles ((k.allocated img p m trapframe pagetable).ready p (some c) entry) (some c) cur
        sie ∧
      Lease img (k.allocated img p m trapframe pagetable) p (n + 4) := by
  obtain ⟨w₁, m, trapframe, pagetable, halloc, guards, -, lease⟩ := alone_allocProcess quiet
    skipped range tramp idles room hslots hused hp
  obtain ⟨w₂, hcreate, idles₂⟩ := alone_createWith_child img quiet guards entry
  exact ⟨w₂, m, trapframe, pagetable, _, halloc.bind hcreate, idles₂, lease⟩

/-! ## wait_process -/

theorem alone_waitScan_skip {skipped ps : List Slot} {status havekids : Bool}
    {r : Except String (Sum (CInt × Option CInt) Bool × World Unit)}
    (hskip : ∀ q ∈ skipped, (w.kernel.proc q).parent ≠ some c)
    (hrest : Alone (platform img quiet) () (waitScan img (some c) status ps havekids) w r) :
    Alone (platform img quiet) () (waitScan img (some c) status (skipped ++ ps) havekids) w r := by
  induction skipped with
  | nil => exact hrest
  | cons q skipped ih =>
    refine alone_act_bind (alone_if_neg (hskip q List.mem_cons_self) ?_)
    exact ih fun r hr => hskip r (List.mem_cons_of_mem _ hr)

variable (img quiet) in
theorem alone_reap (skipped : List Slot) {rest : List Slot} (status : Bool) (range : Ranged img)
    (idles : w.Idles k (some c) cur sie) (hslots : slots = skipped ++ p :: rest)
    (hskip : ∀ q ∈ skipped, (k.proc q).parent ≠ some c)
    (hparent : (k.proc p).parent = some c) (hzombie : (k.proc p).state = .zombie)
    (lease : Lease img k p n) :
    ∃ w' k' m, Alone (platform img quiet) () (waitProcess status) w
        (.ok (((k.proc p).pid, if status then some (k.proc p).xstate else none), w')) ∧
      w'.Idles k' (some c) cur sie ∧ Freed p k k' m ∧ Room img k' n := by
  let k₁ := setPhase (some c) .scanning k
  have lease₁ : Lease img k₁ p n := lease.same rfl ⟨rfl, rfl⟩ fun _ _ => id
  obtain ⟨m, k₂, hcomp, hfreed, room⟩ := lease₁.freed quiet range (some c)
  let child := (k₁.shadow p).serial
  let pid := (k₁.proc p).pid
  let stored := if status then some (k₁.proc p).xstate else none
  let k₃ := setPhase (some c) .out (k₂.record (.waited (k₂.shadow c).serial child pid stored))
  have noted := idles.noted
  have hfree := noted.rests.free
  let w₁ := ((w.noted ()).taken () .wait).withKernel k₁
  have off₁ : w₁.Off () := by
    have off := World.off_taken noted.steady .wait
    exact ⟨off.noff, off.sie⟩
  have hother : ∀ lk, lk ≠ .wait → w₁.lock lk = ⟨none, none⟩ := fun lk hlk =>
    (World.lock_taken_other hlk).trans (hfree lk)
  let w₂ := w₁.taken () (.proc p)
  have off₂ : w₂.Off () := World.off_taken (.inr off₁) _
  have idle₂ : w₂.Idle := by
    intro lk hlk
    have hne : lk ≠ .proc p ∧ lk ≠ .wait := by
      constructor <;> rintro rfl <;> simp at hlk
    exact (World.lock_taken_other hne.1).trans (hother lk hne.2)
  have hphase : Alone (platform img quiet) () (write (setPhase (some c) .scanning))
      ((w.noted ()).taken () .wait) (.ok ((), w₁)) := by
    have hrun : Alone (platform img quiet) () (write (setPhase (some c) .scanning))
        ((w.noted ()).taken () .wait) (.ok ((), ((w.noted ()).taken () .wait).withKernel
          (setPhase (some c) .scanning w.kernel))) := alone_act _
    rwa [idles.kernel] at hrun
  have hslot : Alone (platform img quiet) () (release (.proc p)) (w₂.withKernel k₂)
      (.ok ((), (w₁.noted ()).withKernel k₂)) :=
    alone_giveBack (.inr off₁) (hother _ (by simp)) k₂
  rw [World.noted_of_off off₁] at hslot
  have hwait : Alone (platform img quiet) () (release .wait) (w₁.withKernel k₂)
      (.ok ((), ((w.noted ()).noted ()).withKernel k₂)) :=
    alone_giveBack noted.steady (hfree .wait) k₂
  have hfound : Alone (platform img quiet) () (waitScan img (some c) status (p :: rest) false) w₁
      (.ok (.inl (pid, stored), ((w.noted ()).noted ()).withKernel k₃)) := by
    refine alone_act_bind (alone_if_pos hparent ?_)
    refine (alone_acquire (hother _ (by simp))).bind ?_
    refine alone_act_bind (alone_if_pos hzombie ?_)
    refine alone_act_bind (alone_act_bind (alone_act_bind ?_))
    refine (hcomp w₂ off₂ idle₂ rfl).bind (hslot.bind (hwait.bind ?_))
    exact alone_act_bind (.done ..)
  have hbody : Alone (platform img quiet) () (waitBody img (some c) status) w₁
      (.ok ((pid, stored), ((w.noted ()).noted ()).withKernel k₃)) := by
    have hscan : Alone (platform img quiet) () (waitScan img (some c) status slots false) w₁
        (.ok (.inl (pid, stored), ((w.noted ()).noted ()).withKernel k₃)) := by
      rw [hslots]
      exact alone_waitScan_skip hskip hfound
    exact hscan.bind (.done ..)
  refine ⟨_, k₃, m, ?_, noted.noted.withKernel k₃, ?_, ?_⟩
  · refine idles.myproc.bind ((alone_acquire (hfree .wait)).bind (hphase.bind ?_))
    exact .perform_call rfl hbody
  · exact ⟨hfreed.memory, hfreed.others, hfreed.slot, hfreed.pids, hfreed.initproc⟩
  · exact room.same rfl fun _ => id

end Xv6Kernel.Process
