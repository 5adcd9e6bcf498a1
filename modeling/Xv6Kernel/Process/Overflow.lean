import Xv6Kernel.Process.Families
import Xv6Kernel.Process.Deliveries

/-!
# A long run

The second process of `main` creates a child, lets it exit and reaps it, again and
again.  Each round uses up one pid and nothing else.
-/

namespace Xv6Kernel.Process

open Xv6Kernel.Foundation Xv6Kernel.Mm

variable {quiet : Bool} {w : World Unit} {k k' : Kernel} {sie : Bool} {p q : Slot} {n : Nat}
  {saved : Ctx Unit → Code Unit Empty} {s₂ s₃ s : ProcState}

/-- The slot of the children. -/
def slot₃ : Slot := ⟨3, by decide⟩

theorem slots_eq₃ : slots = [slot₀, slot₁, slot₂] ++ slot₃ :: slots.drop 4 := by decide

theorem drop_three : slots.drop 3 = slot₃ :: slots.drop 4 := by decide

theorem slot_cases₃ (q : Slot) :
    q = slot₀ ∨ q = slot₁ ∨ q = slot₂ ∨ q = slot₃ ∨ q ∈ slots.drop 4 := by
  have hmem : q ∈ slots := List.mem_finRange q
  rw [slots_eq₃] at hmem
  simpa using hmem

theorem drop_ne (hq : q ∈ slots.drop 4) : q ≠ slot₀ ∧ q ≠ slot₁ ∧ q ≠ slot₂ ∧ q ≠ slot₃ := by
  have hnot : slot₀ ∉ slots.drop 4 ∧ slot₁ ∉ slots.drop 4 ∧ slot₂ ∉ slots.drop 4 ∧
      slot₃ ∉ slots.drop 4 := by decide
  refine ⟨?_, ?_, ?_, ?_⟩ <;> rintro rfl <;> simp_all

/-! ## The table in these runs -/

/-- The first process of `main` is a zombie, the second has no child, and `n` is the
next pid. -/
structure Home (n : Nat) (k : Kernel) : Prop where
  initproc : k.initproc = some slot₀
  state₀ : (k.proc slot₀).state = .runnable
  context₀ : (k.proc slot₀).context = frameOf slot₀
  state₁ : (k.proc slot₁).state = .zombie
  state₂ : (k.proc slot₂).state = .running
  unused : ∀ q ∈ slots.drop 3, (k.proc q).state = .unused
  orphans : ∀ q, (k.proc q).parent = none
  nextpid : k.nextpid = pidOf n
  born : k.born + 1 = n
  room : Room sampleImage k 4

theorem Home.used (home : Home n k) : ∀ q ∈ [slot₀, slot₁, slot₂], k.state q ≠ .unused := by
  intro q hq
  simp only [List.mem_cons, List.not_mem_nil, or_false] at hq
  rcases hq with rfl | rfl | rfl
  · rw [Kernel.state, home.state₀]
    simp
  · rw [Kernel.state, home.state₁]
    simp
  · rw [Kernel.state, home.state₂]
    simp

/-- The second process of `main` has a child. -/
structure Family (s₂ s₃ : ProcState) (n : Nat) (k : Kernel) : Prop where
  initproc : k.initproc = some slot₀
  state₀ : (k.proc slot₀).state = .runnable
  context₀ : (k.proc slot₀).context = frameOf slot₀
  state₁ : (k.proc slot₁).state = .zombie
  state₂ : (k.proc slot₂).state = s₂
  state₃ : (k.proc slot₃).state = s₃
  unused : ∀ q ∈ slots.drop 4, (k.proc q).state = .unused
  parent : (k.proc slot₃).parent = some slot₂
  orphans : ∀ q, q ≠ slot₃ → (k.proc q).parent = none
  nextpid : k.nextpid = pidOf n
  born : k.born + 1 = n
  lease : Lease sampleImage k slot₃ 4

theorem Family.parents (family : Family s₂ s₃ n k) {r : Slot} (hr : r ≠ slot₂) (q : Slot) :
    (k.proc q).parent ≠ some r := by
  by_cases hq : q = slot₃
  · rw [hq, family.parent]
    exact fun heq => hr (Option.some.inj heq).symm
  · rw [family.orphans q hq]
    nofun

/-- A family after one of its members has done something. -/
theorem Family.apart (family : Family s₂ s₃ n k) (apart : Apart p k k')
    (hused : (k'.proc p).state ≠ .unused) (hp : p = slot₀ ∨ p = slot₂ ∨ p = slot₃)
    (hstate : p = slot₀ → (k'.proc p).state = .runnable ∧ (k'.proc p).context = frameOf slot₀) :
    Family (k'.proc slot₂).state (k'.proc slot₃).state n k' := by
  have hparent : ∀ q, (k'.proc q).parent = (k.proc q).parent := by
    intro q
    by_cases hq : q = p
    · rw [hq, apart.parent]
    · rw [apart.proc q hq]
  have hne : ∀ {q}, q ∈ slots.drop 4 → q ≠ p := by
    intro q hq
    obtain ⟨h₀, -, h₂, h₃⟩ := drop_ne hq
    rcases hp with rfl | rfl | rfl
    exacts [h₀, h₂, h₃]
  have hslot₁ : slot₁ ≠ p := by
    rcases hp with rfl | rfl | rfl <;> decide
  have hslot₀ : (k'.proc slot₀).state = .runnable ∧
      (k'.proc slot₀).context = frameOf slot₀ := by
    by_cases h₀ : slot₀ = p
    · have hboth := hstate h₀.symm
      rwa [← h₀] at hboth
    · rw [apart.proc _ h₀]
      exact ⟨family.state₀, family.context₀⟩
  refine ⟨apart.initproc.trans family.initproc, hslot₀.1, hslot₀.2, ?_, rfl, rfl,
    fun q hq => ?_, ?_, fun q hq => ?_, apart.pids.nextpid.trans family.nextpid,
    (congrArg (· + 1) apart.pids.born).trans family.born,
    family.lease.same apart.memory ?_ fun q hq hunused => ?_⟩
  · rw [apart.proc _ hslot₁]
    exact family.state₁
  · rw [apart.proc q (hne hq)]
    exact family.unused q hq
  · rw [hparent]
    exact family.parent
  · rw [hparent]
    exact family.orphans q hq
  · by_cases h₃ : slot₃ = p
    · rw [h₃]
      exact apart.pages
    · rw [apart.proc _ h₃]
      exact ⟨rfl, rfl⟩
  · have hqp : q ≠ p := by
      rintro rfl
      exact hused hunused
    rwa [Kernel.state, apart.proc q hqp] at hunused

/-! ## The child is created -/

theorem Home.bred (home : Home n k) (m : Memory) (trapframe pagetable : Word)
    (lease : Lease sampleImage (k.allocated sampleImage slot₃ m trapframe pagetable) slot₃ 4)
    (hk : k' = (k.allocated sampleImage slot₃ m trapframe pagetable).ready slot₃ (some slot₂)
      sampleEntry) :
    Family .running .runnable (n + 1) k' ∧ (k'.proc slot₃).pid = pidOf n ∧
      (k'.proc slot₃).context.ra = sampleImage.forkret ∧
      (k'.proc slot₃).context.s0 = sampleEntry := by
  let k₁ := k.allocated sampleImage slot₃ m trapframe pagetable
  obtain ⟨hready, hmemory⟩ := ready_proc sampleEntry slot₃ (some slot₂) k₁
  rw [← hk] at hready hmemory
  have hother : ∀ q, q ≠ slot₃ → k'.proc q = k.proc q := by
    intro q hq
    rw [hready, Function.update_of_ne hq]
    exact (allocated_proc sampleImage slot₃ m trapframe pagetable k).1 q hq
  have hself : k'.proc slot₃ = { k₁.proc slot₃ with
      state := .runnable, parent := some slot₂
      context := { (k₁.proc slot₃).context with s0 := sampleEntry } } := by
    rw [hready, Function.update_self]
    rfl
  have hnew := allocated_self sampleImage slot₃ m trapframe pagetable k
  refine ⟨⟨?_, ?_, ?_, ?_, ?_, ?_, fun q hq => ?_, ?_, fun q hq => ?_, ?_, ?_, ?_⟩, ?_, ?_, ?_⟩
  · rw [hk]
    exact home.initproc
  · rw [hother _ (by decide)]
    exact home.state₀
  · rw [hother _ (by decide)]
    exact home.context₀
  · rw [hother _ (by decide)]
    exact home.state₁
  · rw [hother _ (by decide)]
    exact home.state₂
  · rw [hself]
  · rw [hother q (drop_ne hq).2.2.2]
    exact home.unused q (by rw [drop_three]; exact List.mem_cons_of_mem _ hq)
  · rw [hself]
  · rw [hother q hq]
    exact home.orphans q
  · rw [hk]
    change k.nextpid + 1 = _
    rw [home.nextpid]
    simp [pidOf, BitVec.ofNat_add]
  · rw [hk]
    exact congrArg (· + 1) home.born
  · refine lease.same hmemory ?_ fun q hq hunused => ?_
    · rw [hself]
      exact ⟨rfl, rfl⟩
    · rw [Kernel.state, (allocated_proc sampleImage slot₃ m trapframe pagetable k).1 q hq]
      rwa [Kernel.state, hother q hq] at hunused
  · rw [hself]
    change (k₁.proc slot₃).pid = _
    rw [hnew]
    exact home.nextpid
  · rw [hself]
    change (k₁.proc slot₃).context.ra = _
    rw [hnew]
  · rw [hself]

variable (quiet saved) in
theorem leads_bred (next : Empty → Code Unit Empty)
    (idles : w.Idles k (some slot₂) (.proc slot₂) sie) (home : Home n k) :
    ∃ w' k', Reachable (platform sampleImage quiet)
        (lone w (Program.perform (.client []) >>= next) saved)
        (lone w' (Program.perform (.client []) >>= next) saved) ∧
      w'.Idles k' (some slot₂) (.proc slot₂) sie ∧ Family .running .runnable (n + 1) k' ∧
      (k'.proc slot₃).pid = pidOf n ∧ (k'.proc slot₃).context.ra = sampleImage.forkret ∧
      (k'.proc slot₃).context.s0 = sampleEntry := by
  obtain ⟨himg, tramp, -⟩ := sampleImage_ok
  have hfree : k.state slot₃ = .unused := home.unused slot₃ (by decide)
  obtain ⟨w', m, trapframe, pagetable, pid, hcreate, idles', lease⟩ := alone_createChild quiet
    [slot₀, slot₁, slot₂] (n := 0) himg.ranged tramp idles home.room slots_eq₃ home.used hfree
    sampleEntry
  have hact : Alone (platform sampleImage quiet) ()
      (takeAction sampleImage [] (.createProcess sampleEntry)) w (.ok ([], w')) := by
    rw [takeAction, if_pos rfl]
    exact hcreate.bind (.done ..)
  exact ⟨w', _, (leads_client (.createProcess sampleEntry)).trans (leads_alone hact), idles',
    home.bred m trapframe pagetable lease rfl⟩

/-! ## The parent yields -/

/-- What an entry function does after an action that has left it without locks. -/
def afterAction (next : Empty → Code Unit Empty) : Unit → Code Unit Empty := fun _ => do
  let held ← (pure [] : Code Unit (List Lock))
  let never ← Program.perform (.client held)
  next never

variable (quiet saved) in
theorem leads_parentYields (next : Empty → Code Unit Empty)
    (idles : w.Idles k (some slot₂) (.proc slot₂) sie) (family : Family .running s₃ n k)
    (hcpu : saved (.cpu ()) = afterRun slot₂ (slots.drop 3) nextPass) :
    ∃ w' k', Reachable (platform sampleImage quiet)
        (lone w (Program.perform (.client []) >>= next) saved)
        (lone w' (schedScan (slots.drop 3) true >>= nextPass) (Function.update saved (.proc slot₂)
          (afterSched sie (afterYield slot₂ (afterAction next))))) ∧
      w'.Idles k' none (.cpu ()) sie ∧ Family .runnable s₃ n k' ∧
      (k'.proc slot₂).context = frameOf slot₂ ∧ k'.proc slot₃ = k.proc slot₃ := by
  have hcalled : Reachable (platform sampleImage quiet)
      (lone w (Program.perform (.client []) >>= next) saved)
      (lone w (yield sampleImage >>= afterAction next) saved) := by
    have hclient : Reachable (platform sampleImage quiet)
        (lone w (Program.perform (.client []) >>= next) saved)
        (lone w (takeAction sampleImage [] .yield >>= fun held =>
          Program.perform (.client held) >>= next) saved) := leads_client .yield
    simp only [takeAction, if_true, bind_assoc] at hclient
    exact hclient
  obtain ⟨w₁, hyield, guards⟩ := leads_yield sampleImage quiet saved (afterAction next) idles
    inSched_frameOf.2.2
  rw [hcpu] at hyield
  obtain ⟨w₂, hback, idles₂⟩ := leads_back sampleImage quiet (Function.update saved (.proc slot₂)
    (afterSched sie (afterYield slot₂ (afterAction next)))) (slots.drop 3) nextPass guards
  have apart := switched_apart (p := slot₂) (k := k) (frameOf slot₂)
  have family' := family.apart apart (by simp [Kernel.switched]) (.inr (.inl rfl))
    (fun heq => absurd heq (by decide))
  rw [show (((k.setProc slot₂ fun s => { s with state := .runnable }).switched slot₂
    (frameOf slot₂)).proc slot₂).state = .runnable by simp [Kernel.switched],
    apart.proc slot₃ (by decide), family.state₃] at family'
  exact ⟨w₂, _, hcalled.trans (hyield.trans hback), idles₂, family', by simp [Kernel.switched],
    apart.proc slot₃ (by decide)⟩

/-! ## The child exits -/

theorem Family.awake (family : Family s₂ s₃ n k) (h₂ : s₂ ≠ .sleeping) (h₃ : s₃ ≠ .sleeping)
    (q : Slot) : (k.proc q).state ≠ .sleeping := by
  rcases slot_cases₃ q with rfl | rfl | rfl | rfl | hq
  · rw [family.state₀]
    nofun
  · rw [family.state₁]
    nofun
  · rwa [family.state₂]
  · rwa [family.state₃]
  · rw [family.unused q hq]
    nofun

variable (quiet saved) in
theorem leads_childExits (idles : w.Idles k none (.cpu ()) sie)
    (family : Family .runnable .runnable n k)
    (hra : (k.proc slot₃).context.ra = sampleImage.forkret)
    (hs0 : (k.proc slot₃).context.s0 = sampleEntry) :
    ∃ w' k' saved', Reachable (platform sampleImage quiet)
        (lone w (schedScan (slots.drop 3) true >>= nextPass) saved)
        (lone w' (schedScan (slots.drop 4) true >>= nextPass) saved') ∧
      w'.Idles k' none (.cpu ()) sie ∧ Family .runnable .zombie n k' ∧
      k'.proc slot₂ = k.proc slot₂ ∧ ∀ q, q ≠ slot₃ → saved' (.proc q) = saved (.proc q) := by
  obtain ⟨w₁, k₁, hcalled, idles₁, apart₁, hrunning⟩ := leads_called sampleImage quiet saved []
    (slots.drop 4) true nextPass idles (by simp) family.state₃ hra hs0 (by decide)
  have family₁ := family.apart apart₁ (by rw [hrunning]; simp) (.inr (.inr rfl))
    (fun heq => absurd heq (by decide))
  rw [apart₁.proc slot₂ (by decide), family.state₂, hrunning] at family₁
  let saved₁ := Function.update saved (.cpu ()) (afterRun slot₃ (slots.drop 4) nextPass)
  let next : Empty → Code Unit Empty := fun never =>
    (pure never.elim : Code Unit Unit) >>= fun _ => afterEntry
  have hentry : Reachable (platform sampleImage quiet)
      (lone w₁ (Program.perform (.enter sampleEntry) >>= fun _ => afterEntry) saved₁)
      (lone w₁ (Program.perform (.client []) >>= next) saved₁) := leads_sampleEntry
  obtain ⟨w₂, hexit, guards₂⟩ := leads_exit sampleImage quiet saved₁ next 0 idles₁
    (by rw [family₁.initproc]; decide)
    (fun q hq => absurd hq (family₁.parents (by decide) q)) (.inr (family₁.awake (by decide) (by decide)))
  rw [orphaned_childless 0 (family₁.parents (by decide))] at guards₂
  have hregs : InSched sampleImage slot₃ (frameOf slot₃) := ⟨by decide, by decide⟩
  obtain ⟨w₃, hsched, guards₃⟩ := leads_sched sampleImage quiet saved₁ (afterExit next) guards₂
    (by simp) hregs
  rw [show saved₁ (.cpu ()) = afterRun slot₃ (slots.drop 4) nextPass from
    Function.update_self ..] at hsched
  obtain ⟨w₄, hback, idles₄⟩ := leads_back sampleImage quiet (Function.update saved₁ (.proc slot₃)
    (afterSched sie (afterExit next))) (slots.drop 4) nextPass guards₃
  have recorded : Apart slot₃ k₁ (k₁.recordExit (some slot₃) 0) :=
    ⟨fun _ _ => rfl, rfl, rfl, fun q hq => Function.update_of_ne hq .., rfl, ⟨rfl, rfl⟩, rfl, rfl⟩
  let k₂ := ((k₁.recordExit (some slot₃) 0).setProc slot₃ fun s =>
    { s with xstate := 0, state := .zombie }).switched slot₃ (frameOf slot₃)
  have apart₂ : Apart slot₃ k₁ k₂ :=
    recorded.trans ((apart_setProc _ rfl ⟨rfl, rfl⟩).trans (apart_setProc _ rfl ⟨rfl, rfl⟩))
  have hzombie : (k₂.proc slot₃).state = .zombie := by simp [k₂, Kernel.switched]
  have family₂ := family₁.apart apart₂ (by rw [hzombie]; simp) (.inr (.inr rfl))
    (fun heq => absurd heq (by decide))
  rw [apart₂.proc slot₂ (by decide), family₁.state₂, hzombie] at family₂
  refine ⟨w₄, _, _, hcalled.trans (hentry.trans (hexit.trans (hsched.trans hback))), idles₄,
    family₂, (apart₂.proc slot₂ (by decide)).trans (apart₁.proc slot₂ (by decide)),
    fun q hq => ?_⟩
  exact (Function.update_of_ne (by simpa using hq) ..).trans (Function.update_of_ne (by simp) ..)

/-! ## The parent reaps the child -/

variable (quiet saved) in
theorem leads_parentResumes (next : Empty → Code Unit Empty)
    (idles : w.Idles k none (.cpu ()) sie) (family : Family .runnable s₃ n k)
    (hcontext : (k.proc slot₂).context = frameOf slot₂)
    (hsaved : saved (.proc slot₂) = afterSched false (afterYield slot₂ (afterAction next))) :
    ∃ w' k', Reachable (platform sampleImage quiet)
        (lone w (schedScan (slot₁ :: slot₂ :: slots.drop 3) true >>= nextPass) saved)
        (lone w' (Program.perform (.client []) >>= next)
          (Function.update saved (.cpu ()) (afterRun slot₂ (slots.drop 3) nextPass))) ∧
      w'.Idles k' (some slot₂) (.proc slot₂) false ∧ Family .running s₃ n k' := by
  obtain ⟨w₁, hdispatch, guards⟩ := leads_dispatch sampleImage quiet saved [slot₁]
    (slots.drop 3) true nextPass idles (fun q hq => by
      rw [List.mem_singleton.mp hq, family.state₁]
      nofun) family.state₂
  have hra : (w₁.kernel.proc slot₂).context.ra ≠ sampleImage.forkret := by
    rw [guards.kernel, Kernel.setProc_proc_self, hcontext]
    decide
  rw [resumed_saved hra, hsaved] at hdispatch
  obtain ⟨w₂, hresumed, idles₂⟩ := leads_resumed sampleImage quiet false
    (Function.update saved (.cpu ()) (afterRun slot₂ (slots.drop 3) nextPass))
    (afterAction next) guards
  have apart : Apart slot₂ k (k.setProc slot₂ fun s => { s with state := .running }) :=
    apart_setProc _ rfl ⟨rfl, rfl⟩
  have family' := family.apart apart (by simp) (.inr (.inl rfl))
    (fun heq => absurd heq (by decide))
  rw [show ((k.setProc slot₂ fun s => { s with state := .running }).proc slot₂).state =
    .running by simp, apart.proc slot₃ (by decide), family.state₃] at family'
  exact ⟨w₂, _, hdispatch.trans hresumed, idles₂, family'⟩

variable (quiet) in
theorem alone_childReaped (status : Bool) (idles : w.Idles k (some slot₂) (.proc slot₂) sie)
    (family : Family .running .zombie n k) :
    ∃ w' k', Alone (platform sampleImage quiet) () (waitProcess status) w
        (.ok (((k.proc slot₃).pid, if status then some (k.proc slot₃).xstate else none), w')) ∧
      w'.Idles k' (some slot₂) (.proc slot₂) sie ∧ Home n k' := by
  obtain ⟨himg, -, -⟩ := sampleImage_ok
  obtain ⟨w', k', m, hwait, idles', freed, room⟩ := alone_reap sampleImage quiet
    [slot₀, slot₁, slot₂] status himg.ranged idles slots_eq₃ (fun q hq => by
      rw [family.orphans q (by rintro rfl; revert hq; decide)]
      nofun) family.parent family.state₃ family.lease
  refine ⟨w', k', hwait, idles', ?_⟩
  refine ⟨freed.initproc.trans family.initproc, ?_, ?_, ?_, ?_, fun q hq => ?_, fun q => ?_,
    freed.pids.1.trans family.nextpid, (congrArg (· + 1) freed.pids.2).trans family.born, room⟩
  · rw [freed.others _ (by decide)]
    exact family.state₀
  · rw [freed.others _ (by decide)]
    exact family.context₀
  · rw [freed.others _ (by decide)]
    exact family.state₁
  · rw [freed.others _ (by decide)]
    exact family.state₂
  · rw [drop_three] at hq
    rcases List.mem_cons.mp hq with rfl | hq
    · rw [freed.slot]
      rfl
    · rw [freed.others q (drop_ne hq).2.2.2]
      exact family.unused q hq
  · by_cases hq : q = slot₃
    · rw [hq, freed.slot]
      rfl
    · rw [freed.others q hq]
      exact family.orphans q hq

variable (quiet saved) in
theorem leads_reaped (next : Empty → Code Unit Empty)
    (idles : w.Idles k (some slot₂) (.proc slot₂) sie) (family : Family .running .zombie n k) :
    ∃ w' k', Reachable (platform sampleImage quiet)
        (lone w (Program.perform (.client []) >>= next) saved)
        (lone w' (Program.perform (.client []) >>= next) saved) ∧
      w'.Idles k' (some slot₂) (.proc slot₂) sie ∧ Home n k' := by
  obtain ⟨w', k', hwait, idles', home⟩ := alone_childReaped quiet false idles family
  have hact : Alone (platform sampleImage quiet) ()
      (takeAction sampleImage [] (.waitProcess false)) w (.ok ([], w')) := by
    rw [takeAction, if_pos rfl]
    exact hwait.bind (.done ..)
  exact ⟨w', k', (leads_client (.waitProcess false)).trans (leads_alone hact), idles', home⟩

/-! ## Rounds -/

/-- The second process of `main` has no child, and the next pid will be the `n`th. -/
def Rounds (quiet : Bool) (n : Nat) : Prop :=
  ∃ m : SampleMemory, ∃ w k saved next, Reachable (platform sampleImage quiet)
      (boot sampleImage () [sampleEntry, sampleEntry] m)
      (lone w (Program.perform (.client []) >>= next) saved) ∧
    w.Idles k (some slot₂) (.proc slot₂) false ∧ Home n k ∧
    saved (.cpu ()) = afterRun slot₂ (slots.drop 3) nextPass ∧ saved (.proc slot₀) = nextTurn

variable (quiet saved) in
/-- The child exits, and its parent goes on. -/
theorem leads_exitedChild (next : Empty → Code Unit Empty)
    (idles₁ : w.Idles k (some slot₂) (.proc slot₂) false) (family₁ : Family .running .runnable n k)
    (hra : (k.proc slot₃).context.ra = sampleImage.forkret)
    (hs0 : (k.proc slot₃).context.s0 = sampleEntry)
    (hcpu : saved (.cpu ()) = afterRun slot₂ (slots.drop 3) nextPass)
    (hsaved : saved (.proc slot₀) = nextTurn) :
    ∃ w' k' saved', Reachable (platform sampleImage quiet)
        (lone w (Program.perform (.client []) >>= next) saved)
        (lone w' (Program.perform (.client []) >>= next) saved') ∧
      w'.Idles k' (some slot₂) (.proc slot₂) false ∧ Family .running .zombie n k' ∧
      saved' (.cpu ()) = afterRun slot₂ (slots.drop 3) nextPass ∧
      saved' (.proc slot₀) = nextTurn := by
  obtain ⟨w₂, k₂, hyield, idles₂, family₂, hcontext, hchild⟩ := leads_parentYields quiet saved next
    idles₁ family₁ hcpu
  let saved₂ := Function.update saved (.proc slot₂)
    (afterSched false (afterYield slot₂ (afterAction next)))
  obtain ⟨w₃, k₃, saved₃, hexit, idles₃, family₃, hslot₃, hothers₃⟩ := leads_childExits quiet saved₂
    idles₂ family₂ (by rw [hchild]; exact hra) (by rw [hchild]; exact hs0)
  have hinit : saved₂ (.proc slot₀) = nextTurn :=
    (Function.update_of_ne (by decide) ..).trans hsaved
  obtain ⟨w₄, k₄, saved₄, hturn, idles₄, apart, hstate₀, hcontext₀, hsaved₄, hothers₄⟩ :=
    leads_initTurn quiet (slots.drop 4) idles₃ (fun q hq => by
      rw [family₃.unused q hq]
      nofun) family₃.state₀ family₃.context₀ (family₃.parents (by decide))
      ((hothers₃ slot₀ (by decide)).trans hinit)
  have family₄ := family₃.apart apart (by rw [hstate₀]; nofun) (.inl rfl)
    (fun _ => ⟨hstate₀, hcontext₀⟩)
  rw [apart.proc slot₂ (by decide), apart.proc slot₃ (by decide), family₃.state₂,
    family₃.state₃] at family₄
  have hback : saved₄ (.proc slot₂) =
      afterSched false (afterYield slot₂ (afterAction next)) := by
    rw [hothers₄ slot₂ (by decide), hothers₃ slot₂ (by decide)]
    exact Function.update_self ..
  obtain ⟨w₅, k₅, hresume, idles₅, family₅⟩ := leads_parentResumes quiet saved₄ next idles₄ family₄
    (by rw [apart.proc slot₂ (by decide), hslot₃]; exact hcontext) hback
  exact ⟨w₅, k₅, _, hyield.trans (hexit.trans (hturn.trans hresume)), idles₅, family₅,
    Function.update_self .., (Function.update_of_ne (by nofun) ..).trans hsaved₄⟩

variable (quiet saved) in
/-- The child exits and is reaped. -/
theorem leads_raised (next : Empty → Code Unit Empty)
    (idles₁ : w.Idles k (some slot₂) (.proc slot₂) false) (family₁ : Family .running .runnable n k)
    (hra : (k.proc slot₃).context.ra = sampleImage.forkret)
    (hs0 : (k.proc slot₃).context.s0 = sampleEntry)
    (hcpu : saved (.cpu ()) = afterRun slot₂ (slots.drop 3) nextPass)
    (hsaved : saved (.proc slot₀) = nextTurn) :
    ∃ w' k' saved', Reachable (platform sampleImage quiet)
        (lone w (Program.perform (.client []) >>= next) saved)
        (lone w' (Program.perform (.client []) >>= next) saved') ∧
      w'.Idles k' (some slot₂) (.proc slot₂) false ∧ Home n k' ∧
      saved' (.cpu ()) = afterRun slot₂ (slots.drop 3) nextPass ∧
      saved' (.proc slot₀) = nextTurn := by
  obtain ⟨w₂, k₂, saved₂, hexited, idles₂, family₂, hcpu₂, hsaved₂⟩ := leads_exitedChild quiet saved
    next idles₁ family₁ hra hs0 hcpu hsaved
  obtain ⟨w₃, k₃, hreap, idles₃, home₃⟩ := leads_reaped quiet saved₂ next idles₂ family₂
  exact ⟨w₃, k₃, saved₂, hexited.trans hreap, idles₃, home₃, hcpu₂, hsaved₂⟩

theorem Rounds.round (home : Rounds quiet n) : Rounds quiet (n + 1) := by
  obtain ⟨m, w, k, saved, next, hreach, idles, home, hcpu, hsaved⟩ := home
  obtain ⟨w₁, k₁, hbred, idles₁, family₁, -, hra, hs0⟩ := leads_bred quiet saved next idles home
  obtain ⟨w₂, k₂, saved₂, hraised, idles₂, home₂, hcpu₂, hsaved₂⟩ := leads_raised quiet saved next
    idles₁ family₁ hra hs0 hcpu hsaved
  exact ⟨m, w₂, k₂, saved₂, next, hreach.trans (hbred.trans hraised), idles₂, home₂, hcpu₂,
    hsaved₂⟩

/-- The rounds begin when the first process of `main` has exited. -/
theorem Turned.home {k₀ : Kernel} (turned : Turned k₀) (apart : Apart slot₁ k₀ k)
    (hzombie : (k.proc slot₁).state = .zombie) (apart' : Apart slot₂ k k')
    (hrunning : (k'.proc slot₂).state = .running) : Home 4 k' := by
  have hother : ∀ q, q ≠ slot₁ → q ≠ slot₂ → k'.proc q = k₀.proc q := fun q h₁ h₂ =>
    (apart'.proc q h₂).trans (apart.proc q h₁)
  have hslot₁ : (k'.proc slot₁).state = .zombie := by
    rw [apart'.proc slot₁ (by decide)]
    exact hzombie
  refine ⟨(apart'.initproc.trans apart.initproc).trans turned.initproc, ?_, ?_, hslot₁, hrunning,
    fun q hq => ?_, apart'.orphans (apart.orphans turned.orphans),
    (apart'.pids.nextpid.trans apart.pids.nextpid).trans turned.nextpid,
    congrArg (· + 1) ((apart'.pids.born.trans apart.pids.born).trans turned.born),
    turned.room.same (apart'.memory.trans apart.memory) fun q hq => ?_⟩
  · rw [hother _ (by decide) (by decide)]
    exact turned.state
  · rw [hother _ (by decide) (by decide)]
    exact turned.context
  · have hne : ∀ p, p ∉ slots.drop 3 → q ≠ p := fun p hp heq => hp (heq ▸ hq)
    rw [hother q (hne _ not_mem_drop.2.1) (hne _ not_mem_drop.2.2)]
    exact turned.unused q hq
  · have hne : q ≠ slot₁ ∧ q ≠ slot₂ := by
      constructor <;> rintro rfl <;> rw [Kernel.state] at hq
      · rw [hslot₁] at hq
        cases hq
      · rw [hrunning] at hq
        cases hq
    rwa [Kernel.state, hother q hne.1 hne.2] at hq

variable (quiet) in
theorem rounds_start : Rounds quiet 4 := by
  obtain ⟨m, w₀, k₀, saved₀, next₀, hclient, idles₀, hcpu, hsaved₀, k, turned, apart₀⟩ :=
    leads_firstClient quiet
  obtain ⟨w₁, k₁, saved₁, hexited, idles₁, hsaved₁, apart₁, hzombie⟩ :=
    leads_exited next₀ idles₀ hcpu hsaved₀ turned apart₀
  have second : Newborn sampleImage sampleEntry slot₂ k₁ :=
    apart₁.newborn (by decide) turned.second
  obtain ⟨w₂, k₂, hcalled, idles₂, apart₂, hrunning⟩ := leads_called sampleImage quiet saved₁ []
    (slots.drop 3) true nextPass idles₁ (fun _ hq => nomatch hq) second.state second.ra second.s0
    (by decide)
  exact ⟨m, w₂, k₂, _, _, hclient.trans (hexited.trans (hcalled.trans leads_sampleEntry)), idles₂,
    turned.home apart₁ hzombie apart₂ hrunning, Function.update_self ..,
    (Function.update_of_ne (by nofun) ..).trans hsaved₁⟩

variable (quiet) in
theorem rounds (hn : 4 ≤ n) : Rounds quiet n := by
  induction n, hn using Nat.le_induction with
  | base => exact rounds_start quiet
  | succ n _ ih => exact ih.round

variable (quiet) in
theorem leads_pid (hn : 4 ≤ n) : ∃ m w code saved,
    Reachable (platform sampleImage quiet) (boot sampleImage () [sampleEntry, sampleEntry] m)
      (lone w code saved) ∧
    (w.kernel.proc slot₃).state = .runnable ∧ (w.kernel.proc slot₃).pid = pidOf n ∧
    w.kernel.born = n := by
  obtain ⟨m, w, k, saved, next, hreach, idles, home, -, -⟩ := rounds quiet hn
  obtain ⟨w', k', hbred, idles', family, hpid, -, -⟩ := leads_bred quiet saved next idles home
  refine ⟨m, w', _, saved, hreach.trans hbred, ?_, ?_, ?_⟩ <;> rw [idles'.kernel]
  · exact family.state₃
  · exact hpid
  · exact Nat.succ.inj family.born

/-! ## Pids -/

/-- What is promised of pids: they are positive and name one slot, and `wait_process`
returns no negative one for a child. -/
structure PidsSound (k : Kernel) : Prop where
  pos : ∀ p, (k.proc p).state ≠ .unused → 0 < (k.proc p).pid.toInt
  unique : ∀ p q, p ≠ q → (k.proc p).state ≠ .unused → (k.proc q).state ≠ .unused →
    (k.proc p).pid ≠ (k.proc q).pid
  waited : ∀ {who child pid stored}, .waited who child pid stored ∈ k.log → 0 ≤ pid.toInt

theorem pidOf_toInt {serial : Nat} (hserial : serial < 2 ^ 31) :
    (pidOf serial).toInt = serial := by
  have hnat : (pidOf serial).toNat = serial := by
    rw [pidOf, BitVec.toNat_ofNat]
    omega
  have hlt : 2 * (pidOf serial).toNat < 2 ^ 32 := by omega
  rw [BitVec.toInt_eq_toNat_of_lt hlt, hnat]

theorem Data.taken {img : Image} (data : Data img k) (hp : (k.proc p).state ≠ .unused) :
    k.serial p ≠ 0 ∧ (k.proc p).pid = pidOf (k.serial p) := by
  by_cases hlive : (k.state p).Live
  · exact ⟨data.pids.pos hlive, data.pids.pid hlive⟩
  · have hused : ∀ s : ProcState, s ≠ .unused → ¬ s.Live → s = .used := by
      intro s
      cases s <;> simp
    exact (data.slot p).used (hused _ hp hlive)

theorem Data.pidsSound {img : Image} (data : Data img k) (hborn : k.born < 2 ^ 31) :
    PidsSound k where
  pos p hp := by
    obtain ⟨hserial, hpid⟩ := data.taken hp
    have hle := data.pids.le p
    rw [hpid, pidOf_toInt (by omega)]
    omega
  unique p q hne hp hq heq := by
    obtain ⟨hserial, hpid⟩ := data.taken hp
    obtain ⟨-, hpid'⟩ := data.taken hq
    have hsame := pidOf_inj (data.pids.le p) (data.pids.le q) hborn
      (hpid.symm.trans (heq.trans hpid'))
    exact hne (data.pids.inj hsame hserial)
  waited hwaited := by
    obtain ⟨hpid, hforked⟩ := data.hist.ok.waited hwaited
    have hle := data.hist.bound hforked
    rw [hpid, pidOf_toInt (by omega)]
    omega

variable {H : Type} [DecidableEq H] {S : Setting H} {entries : List Word} {memory : Memory}
  {m : Config (Instr H) H (Ctx H) (World H)}

/-- Pids are sound as long as `allocpid` has not been called `2 ^ 31` times. -/
theorem pids_sound (reaches : Reaches S entries memory m)
    (hborn : m.world.kernel.born < 2 ^ 31) : PidsSound m.world.kernel :=
  reaches.good.inv.data.pidsSound hborn

omit [DecidableEq H] in
theorem pids_sound_sample : ∃ memory m,
    Reaches sampleSetting [sampleEntry, sampleEntry] memory m ∧
      (m.world.kernel.proc slot₃).state = .runnable ∧ PidsSound m.world.kernel := by
  obtain ⟨memory, w, code, saved, hreach, hstate, -, hborn⟩ := leads_pid false (le_refl 4)
  have reaches : Reaches sampleSetting [sampleEntry, sampleEntry] memory (lone w code saved) :=
    hreach
  have hfew : w.kernel.born < 2 ^ 31 := by omega
  exact ⟨memory, lone w code saved, reaches, hstate, pids_sound reaches hfew⟩

/-- The process with the number `2 ^ 31` has a negative pid. -/
theorem pids_overflow : ∃ memory m,
    Reaches sampleSetting [sampleEntry, sampleEntry] memory m ∧ ¬ PidsSound m.world.kernel := by
  obtain ⟨memory, w, code, saved, hreach, hstate, hpid, -⟩ :=
    leads_pid false (show 4 ≤ 2 ^ 31 by norm_num)
  refine ⟨memory, lone w code saved, hreach, fun sound => ?_⟩
  have hpos : 0 < (w.kernel.proc slot₃).pid.toInt := sound.pos slot₃ (by
    change (w.kernel.proc slot₃).state ≠ .unused
    rw [hstate]
    nofun)
  rw [hpid] at hpos
  exact absurd hpos (by decide)

end Xv6Kernel.Process
