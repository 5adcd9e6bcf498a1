import Xv6Kernel.Process.Turns

/-!
# The first turns

`initproc` finds no child and yields; the first process of `main` then exits.
-/

namespace Xv6Kernel.Process

open Xv6Kernel.Foundation Xv6Kernel.Mm

variable {quiet : Bool} {k k' : Kernel} {p q : Slot}

/-- `initproc` waits for its next turn, and the processes of `main` have not run. -/
structure Turned (k : Kernel) : Prop where
  initproc : k.initproc = some slot₀
  state : (k.proc slot₀).state = .runnable
  context : (k.proc slot₀).context = frameOf slot₀
  first : Newborn sampleImage sampleEntry slot₁ k
  second : Newborn sampleImage sampleEntry slot₂ k
  unused : ∀ q ∈ slots.drop 3, (k.proc q).state = .unused
  orphans : ∀ q, (k.proc q).parent = none
  nextpid : k.nextpid = 4
  born : k.born = 3
  room : Room sampleImage k 4

theorem Booted.newborn (booted : Booted k) :
    Newborn sampleImage sampleImage.initTask slot₀ k ∧
      Newborn sampleImage sampleEntry slot₁ k ∧ Newborn sampleImage sampleEntry slot₂ k :=
  ⟨booted.peopled.newborn (by simp), booted.peopled.newborn (by simp),
    booted.peopled.newborn (by simp)⟩

theorem Booted.orphans (booted : Booted k) (q : Slot) : (k.proc q).parent = none := by
  by_cases hq : q ∈ [slot₂, slot₁, slot₀]
  · simp only [List.mem_cons, List.not_mem_nil, or_false] at hq
    rcases hq with rfl | rfl | rfl
    · exact booted.newborn.2.2.parent
    · exact booted.newborn.2.1.parent
    · exact booted.newborn.1.parent
  · exact (booted.peopled.unused hq).2

theorem not_mem_drop : slot₀ ∉ slots.drop 3 ∧ slot₁ ∉ slots.drop 3 ∧ slot₂ ∉ slots.drop 3 := by
  decide

theorem Booted.turned (booted : Booted k) (apart : Apart slot₀ k k')
    (hstate : (k'.proc slot₀).state = .runnable)
    (hcontext : (k'.proc slot₀).context = frameOf slot₀) : Turned k' := by
  refine ⟨apart.initproc.trans booted.initproc, hstate, hcontext,
    apart.newborn (by decide) booted.newborn.2.1,
    apart.newborn (by decide) booted.newborn.2.2, fun q hq => ?_,
    apart.orphans booted.orphans, apart.pids.nextpid.trans booted.nextpid,
    apart.pids.born.trans booted.born,
    booted.room.same apart.memory fun q hq => ?_⟩
  swap
  · rw [Kernel.state] at hq ⊢
    rwa [← apart.proc q fun heq => by rw [heq, hstate] at hq; cases hq]
  have hne : ∀ p, p ∉ slots.drop 3 → q ≠ p := fun p hp heq => hp (heq ▸ hq)
  rw [apart.proc q (hne _ not_mem_drop.1)]
  refine (booted.peopled.unused ?_).1
  simp [hne _ not_mem_drop.1, hne _ not_mem_drop.2.1, hne _ not_mem_drop.2.2]

theorem entered_apart (k : Kernel) : Apart slot₀ k ((((k.setProc slot₀ fun s =>
    { s with state := .running }).entering slot₀ false).announced).entered slot₀) :=
  (apart_setProc _ rfl ⟨rfl, rfl⟩).trans ((noted_setShadow _ rfl).trans
    (noted_announced.trans (noted_setShadow _ rfl))).apart

theorem switched_apart (regs : Context) : Apart p k
    ((k.setProc p fun s => { s with state := .runnable }).switched p regs) :=
  (apart_setProc _ rfl ⟨rfl, rfl⟩).trans (apart_setProc _ rfl ⟨rfl, rfl⟩)

theorem leads_sampleEntry {w : World Unit} {saved : Ctx Unit → Code Unit Empty} :
    Reachable (platform sampleImage quiet)
      (lone w (Program.perform (.enter sampleEntry) >>= fun _ => afterEntry) saved)
      (lone w (Program.perform (.client []) >>= fun never : Empty =>
        (pure never.elim : Code Unit Unit) >>= fun _ => afterEntry) saved) := by
  have hcall : Reachable (platform sampleImage quiet)
      (lone w (Program.perform (.enter sampleEntry) >>= fun _ => afterEntry) saved)
      (lone w (enterBody sampleImage sampleEntry >>= fun _ => afterEntry) saved) :=
    leads_call rfl
  rw [enterBody, if_neg (by decide), if_pos (by decide)] at hcall
  simpa only [bind_assoc] using hcall

/-- What `initproc` does in its next turn. -/
def nextTurn : Code Unit Empty :=
  afterSched false (afterYield slot₀ (afterInitYield fun never =>
    (pure never.elim : Code Unit Unit) >>= fun _ => afterEntry))

variable (quiet) in
theorem leads_turned : ∃ m : SampleMemory, ∃ w k saved,
    Reachable (platform sampleImage quiet) (boot sampleImage () [sampleEntry, sampleEntry] m)
      (lone w (schedScan (slot₁ :: slot₂ :: slots.drop 3) true >>= nextPass) saved) ∧
    w.Idles k none (.cpu ()) false ∧ saved (.proc slot₀) = nextTurn ∧ Turned k := by
  obtain ⟨m, w₀, k₀, saved, hinit, idles₀, hsaved, k₁, booted, rfl⟩ := leads_init quiet
  have hcall : Reachable (platform sampleImage quiet)
      (lone w₀ (Program.perform (.enter sampleImage.initTask) >>= fun _ => afterEntry) saved)
      (lone w₀ (enterBody sampleImage sampleImage.initTask >>= fun _ => afterEntry) saved) :=
    leads_call rfl
  rw [enterBody, if_pos rfl] at hcall
  simp only [bind_assoc] at hcall
  have apart := entered_apart k₁
  obtain ⟨w₁, k₂, htask, idles₁, noted₁⟩ := leads_initTask sampleImage quiet saved
    (fun never => (pure never.elim : Code Unit Unit) >>= fun _ => afterEntry) idles₀
  have apart₁ := apart.trans noted₁.apart
  obtain ⟨w₂, k₃, hloop, guards, noted₂⟩ := leads_initLoop sampleImage quiet saved
    (fun never => (pure never.elim : Code Unit Unit) >>= fun _ => afterEntry) idles₁
    (fun q => by rw [apart₁.orphans booted.orphans q]; simp) inSched_frameOf.1
  rw [hsaved] at hloop
  obtain ⟨w₃, hback, idles₃⟩ := leads_back sampleImage quiet
    (Function.update saved (.proc slot₀) nextTurn) (slot₁ :: slot₂ :: slots.drop 3) nextPass
    guards
  exact ⟨m, w₃, _, _, hinit.trans (hcall.trans (htask.trans (hloop.trans hback))), idles₃,
    Function.update_self ..,
    booted.turned ((apart₁.trans noted₂.apart).trans (switched_apart _))
      (by simp [Kernel.switched]) (by simp [Kernel.switched])⟩

variable (quiet) in
/-- The first process of `main` calls its entry function with interrupts off. -/
theorem leads_firstClient : ∃ m : SampleMemory, ∃ w k saved next,
    Reachable (platform sampleImage quiet) (boot sampleImage () [sampleEntry, sampleEntry] m)
      (lone w (Program.perform (.client []) >>= next) saved) ∧
    w.Idles k (some slot₁) (.proc slot₁) false ∧
    saved (.cpu ()) = afterRun slot₁ (slot₂ :: slots.drop 3) nextPass ∧
    saved (.proc slot₀) = nextTurn ∧ ∃ k₀, Turned k₀ ∧ Apart slot₁ k₀ k := by
  obtain ⟨m, w₀, k₀, saved, hturned, idles₀, hsaved, turned⟩ := leads_turned quiet
  obtain ⟨w₁, k₁, hcalled, idles₁, apart, -⟩ := leads_called sampleImage quiet saved []
    (slot₂ :: slots.drop 3) true nextPass idles₀ (fun _ hq => nomatch hq) turned.first.state
    turned.first.ra turned.first.s0 (by decide)
  refine ⟨m, w₁, k₁, _, _, hturned.trans (hcalled.trans leads_sampleEntry), idles₁,
    Function.update_self .., ?_, k₀, turned, apart⟩
  rw [Function.update_of_ne (by nofun)]
  exact hsaved

/-- It exits, and the scheduler looks further with `SIE` as it left it. -/
theorem leads_exited {w : World Unit} {saved : Ctx Unit → Code Unit Empty} {k₀ : Kernel}
    {sie : Bool} (next : Empty → Code Unit Empty) (idles : w.Idles k (some slot₁)
      (.proc slot₁) sie) (hcpu : saved (.cpu ()) = afterRun slot₁ (slot₂ :: slots.drop 3) nextPass)
    (hsaved : saved (.proc slot₀) = nextTurn) (turned : Turned k₀) (apart : Apart slot₁ k₀ k) :
    ∃ w' k' saved', Reachable (platform sampleImage quiet)
        (lone w (Program.perform (.client []) >>= next) saved)
        (lone w' (schedScan (slot₂ :: slots.drop 3) true >>= nextPass) saved') ∧
      w'.Idles k' none (.cpu ()) sie ∧ saved' (.proc slot₀) = nextTurn ∧
      Apart slot₁ k₀ k' ∧ (k'.proc slot₁).state = .zombie := by
  have horphans := apart.orphans turned.orphans
  obtain ⟨w₁, hexit, guards₁⟩ := leads_exit sampleImage quiet saved next 0 idles
    (by rw [apart.initproc, turned.initproc]; decide)
    (fun q hq => absurd (horphans q ▸ hq) nofun) (.inl (horphans slot₁))
  rw [orphaned_childless 0 fun q => by rw [horphans q]; nofun] at guards₁
  obtain ⟨w₂, hsched, guards₂⟩ := leads_sched sampleImage quiet saved (afterExit next) guards₁
    (by simp) inSched_frameOf.2.1
  rw [hcpu] at hsched
  obtain ⟨w₃, hback, idles₃⟩ := leads_back sampleImage quiet
    (Function.update saved (.proc slot₁) (afterSched sie (afterExit next)))
    (slot₂ :: slots.drop 3) nextPass guards₂
  refine ⟨w₃, _, _, hexit.trans (hsched.trans hback), idles₃, ?_, ?_, ?_⟩
  · rw [Function.update_of_ne (by decide)]
    exact hsaved
  · have recorded : Apart slot₁ k (k.recordExit (some slot₁) 0) :=
      ⟨fun _ _ => rfl, rfl, rfl, fun q hq => Function.update_of_ne hq .., rfl,
        ⟨rfl, rfl⟩, rfl, rfl⟩
    exact (apart.trans recorded).trans ((apart_setProc _ rfl ⟨rfl, rfl⟩).trans
      (apart_setProc _ rfl ⟨rfl, rfl⟩))
  · simp [Kernel.switched]

variable (quiet) in
/-- The first process of `main` is a zombie without a parent. -/
theorem leads_orphan : ∃ m w k saved code,
    Reachable (platform sampleImage quiet) (boot sampleImage () [sampleEntry, sampleEntry] m)
      (lone w code saved) ∧
    w.Idles k none (.cpu ()) false ∧ (k.proc slot₁).state = .zombie ∧
    (k.proc slot₁).parent = none := by
  obtain ⟨m, w₀, k₀, saved, next, hclient, idles₀, hcpu, hsaved, k₁, turned, apart⟩ :=
    leads_firstClient quiet
  obtain ⟨w₁, k₂, saved₁, hexited, idles₁, -, apart', hzombie⟩ :=
    leads_exited next idles₀ hcpu hsaved turned apart
  exact ⟨m, w₁, k₂, saved₁, _, hclient.trans hexited, idles₁, hzombie,
    apart'.orphans turned.orphans slot₁⟩

end Xv6Kernel.Process
