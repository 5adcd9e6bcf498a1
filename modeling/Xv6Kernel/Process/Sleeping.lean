import Xv6Kernel.Process.Switching

/-!
# `wakeup`, `sleep` and `yield`

What a process may rely on without a lock survives all three: other processes
change in between, but not what belongs to it.
-/

namespace Xv6Kernel.Process

open Xv6Kernel.Foundation Xv6Kernel.Mm

variable {H : Type} {S : Setting H} {α β : Type} {l : Local H} {F F' : Kernel → Prop}
  {h : H} {w w' : World H} {p q : Slot} {c : Ctx H} {chan : Option Chan} {k : Kernel}

/-! ## wakeup -/

theorem wake_slotWrite (chan : Option Chan) (q : Slot) (k : Kernel) :
    SlotWrite q k (Kernel.wake chan q k) := by
  unfold Kernel.wake
  split
  · exact (SlotWrite.setProc _).trans (.setShadow _)
  · exact .refl

theorem wake_owed (chan : Option Chan) (q : Slot) (k : Kernel) :
    SlotOwed S c (fun _ => False) q k (Kernel.wake chan q k) := by
  unfold Kernel.wake
  split
  · next hsleep =>
    have hstate : k.state q = .sleeping := hsleep.1
    refine ⟨fun _ _ => ⟨?_, ?_, fun _ hrunning => absurd hrunning (by simp [hstate]), ?_,
      fun _ => ?_, fun r hr => ?_, rfl⟩, fun _ hdead => ?_,
      fun r _ hr => ?_, fun _ => ⟨?_, ?_, ?_⟩, fun _ hc => ?_, fun _ _ => id⟩
    · simp
    · refine ⟨_, Kernel.setShadow_shadow_self .., ?_⟩
      split
      · next harmed => exact .inr ⟨harmed, rfl⟩
      · exact .inl rfl
    · simp
    · simp
    · simpa [Function.update_eq_self] using hr
    · exact absurd (by rw [hstate]; trivial) hdead
    · simpa [Function.update_eq_self] using hr
    · simp
    · simp [hstate]
    · simp only [Kernel.setShadow_phase, Function.update_self]
      split
      · simp
      · next hphase => exact fun h => absurd h hphase
    · simpa [Function.update_eq_self] using hc
  · refine ⟨fun _ halive => .refl halive, fun _ hdead halive => absurd halive hdead,
      fun _ _ hr => ⟨hr, rfl, rfl⟩, fun _ => ⟨rfl, .rfl, id⟩,
      fun hlive hc => ⟨hlive, hc, rfl, rfl⟩, fun _ _ => id⟩

theorem wake_boot (chan : Option Chan) (q : Slot) (k : Kernel) :
    BootKept k (Kernel.wake chan q k) ∧ PidsKept k (Kernel.wake chan q k) := by
  unfold Kernel.wake
  split <;> exact ⟨⟨rfl, rfl, fun _ => rfl⟩, rfl, rfl⟩

/-- Waking another process disturbs nothing that a program relies on. -/
theorem wake_frame {full : Prop} {held : Lock → Prop} (hne : c ≠ .proc q)
    (hheld : ¬ held (.proc q)) : Frame S full c held k (Kernel.wake chan q k) := by
  obtain ⟨boot, pids⟩ := wake_boot chan q k
  refine (wake_slotWrite chan q k).frame (wake_owed chan q k) hne hheld boot pids
    fun r hr hparent => ?_
  have owed : SlotOwed S (.proc q) (fun _ => False) q k (Kernel.wake chan q k) :=
    wake_owed chan q k
  exact owed.child r (fun heq => hne (hr.trans heq.symm)) hparent

theorem wake_data {img : Image} (data : Data img k) (chan : Option Chan) (q : Slot) :
    Data img (Kernel.wake chan q k) := by
  unfold Kernel.wake
  split
  · next hsleep =>
    have hstate : k.state q = .sleeping := hsleep.1
    have hslot := data.slot q
    have hphase : k.phase q = .out ∨ k.phase q = .armed :=
      (hslot.sleeping hsleep.1).imp id And.left
    refine data.setSlot _ (.of_alive (by rw [hstate]; trivial) trivial) rfl (fun _ => rfl)
      rfl rfl rfl (.inr ⟨fun status h => ?_, fun status h => ?_, fun child status h => ?_⟩)
      ⟨hslot.killed, nofun, nofun, fun _ h => ?_, fun _ => hslot.entry (by
        rw [hsleep.1]; trivial), nofun⟩
    all_goals rcases hphase with hphase | hphase <;> simp [hphase] at h
  · exact data

theorem change_wake (inv : Inv S.img w) (on : On l h w) (hctx : l.ctx ≠ .proc q)
    (hheld : l.held (.proc q)) : Change S l w (Kernel.wake chan q w.kernel) := by
  have sw := wake_slotWrite chan q w.kernel
  have owed : SlotOwed S l.ctx l.held q w.kernel (Kernel.wake chan q w.kernel) :=
    (wake_owed chan q w.kernel).mono fun _ => False.elim
  have data := wake_data inv.data chan q
  by_cases hsleep : (w.kernel.proc q).state = .sleeping ∧ (w.kernel.proc q).chan = chan
  · have hrun : w.kernel.state q ≠ .running := by
      rw [Kernel.state, hsleep.1]
      simp
    obtain ⟨boot, pids⟩ := wake_boot chan q w.kernel
    have hwoken : (Kernel.wake chan q w.kernel).state q = .runnable := by
      rw [Kernel.wake, if_pos hsleep]
      simp
    refine sw.change inv on hheld data (sw.others owed hheld (.inr boot) fun _ => pids)
      (.inr (.inl hrun)) (fun harmed => ?_) (fun _ _ => ?_) (.inr ⟨by rw [hwoken]; simp, ?_⟩)
    · rw [Kernel.wake, if_pos hsleep] at harmed
      simp only [Kernel.setShadow_phase, Function.update_self] at harmed
      split at harmed
      · cases harmed
      · next hne => exact absurd harmed hne
    · have hmoved := inv.fresh (on.away inv hheld hctx hrun)
        (by rw [Kernel.state, hsleep.1]; trivial)
      rw [Kernel.wake, if_pos hsleep]
      intro hra
      obtain ⟨hphase, hwindow, hon, hoff⟩ := hmoved (by simpa using hra)
      simp [hphase, hwindow, hon, hoff]
    · rw [hwoken, Kernel.state, hsleep.1]
      exact .wake
  · rw [Kernel.wake, if_neg hsleep]
    exact .refl inv on

/-- What `wakeup` does for a process that waits for a child. -/
theorem wake_phase (harmed : k.phase q = .armed → k.state q = .sleeping ∧ k.chan q = chan) :
    (Kernel.wake chan q k).phase q ≠ .armed := by
  unfold Kernel.wake
  split
  · simp only [Kernel.setShadow_phase, Function.update_self]
    split
    · nofun
    · next hne => exact hne
  · next hne => exact fun h => hne (harmed h)

variable [DecidableEq H]

/-- Nobody who waits for a child on `chan` goes on doing so. -/
def Woken (l : Local H) (chan : Option Chan) (q : Slot) (k : Kernel) : Prop :=
  .wait ∈ l.locks → chan = some (.proc q) → l.ctx ≠ .proc q → k.phase q ≠ .armed

omit [DecidableEq H] in
theorem stable_woken : Stable S l (Woken l chan q) :=
  fun _ _ frame hw hlk hchan hctx harmed =>
    hw hlk hchan hctx ((frame.wait (.inl hlk)).armed q harmed)

omit [DecidableEq H] in
/-- Under `wait_lock` and its own lock nobody is on the way to sleep. -/
theorem On.asleep (on : On l h w) (inv : Inv S.img w) (hwait : .wait ∈ l.locks)
    (hheld : l.held (.proc q)) (hctx : l.ctx ≠ .proc q)
    (harmed : w.kernel.phase q = .armed) :
    w.kernel.state q = .sleeping ∧ w.kernel.chan q = some (.proc q) := by
  refine (inv.armed harmed).resolve_right fun ⟨h', hcur, hlk⟩ => ?_
  have heq : h = h' := by
    rcases hlk with hlk | hlk
    · exact Option.some.inj (((on.held _).mpr (.inl hwait)).symm.trans hlk)
    · exact Option.some.inj (((on.held _).mpr hheld).symm.trans hlk)
  subst heq
  exact hctx (on.ctx.symm.trans hcur)

theorem Triple.wakeOne (hF : Stable S l F) (hhalf : l.half = none) (hdepth : l.depth = 0)
    (hproc : l.proc = l.ctx.slot) (hlocks : .proc q ∉ l.locks) :
    Triple S l F (do
      if some q ≠ (← Process.myproc) then
        Process.acquire (.proc q)
        Process.write (Kernel.wake chan q)
        Process.release (.proc q) : Code H Unit) (fun _ => l)
      fun _ k => F k ∧ Woken l chan q k := by
  refine (Triple.myproc hF hhalf).bind fun r => .known fun hr => .ite (fun hne => ?_)
    fun heq => ?_
  · have hctx : l.ctx ≠ .proc q := by
      intro hctx
      rw [hproc, hctx] at hr
      exact hne hr.symm
    have hG : Stable S l fun k => F k ∧ Woken l chan q k := hF.and stable_woken
    refine (Triple.acquire hF hhalf hdepth hlocks).bind fun _ => ?_
    refine Triple.bind (.write ((hF.cons _).and (Acquired.stable (.inl (by simp)))) ?_)
      fun _ => .releaseLast (hG.cons _) hG (fun _ => id) hhalf hdepth hproc ?_
    · rintro h w inv on ⟨hf, -⟩
      have hheld : Local.held { l with locks := .proc q :: l.locks } (.proc q) :=
        .inl (by simp)
      refine ⟨change_wake inv on hctx hheld, hF _ _ (wake_frame hctx ?_) hf, ?_⟩
      · simpa [Local.held, hhalf] using hlocks
      · rintro hwait rfl -
        exact wake_phase (on.asleep inv (List.mem_cons_of_mem _ hwait) hheld hctx)
    · intro h w inv on _
      refine on.releasable inv (by simp) (fun p hp heq => ?_) fun p hp heq => ?_
      · cases heq
        exact absurd hp hctx
      · rcases heq with heq | heq
        · cases heq
        · cases heq
          exact absurd hp hctx
  · refine .pure (fun k hf => ⟨hf, fun _ _ hctx => absurd ?_ hctx⟩) rfl
    have hslot : l.ctx.slot = some q := by
      rw [← hproc, ← hr]
      exact (not_not.mp heq).symm
    cases hc : l.ctx with
    | proc r =>
        rw [hc] at hslot
        rw [Option.some.inj hslot]
    | cpu h =>
        rw [hc] at hslot
        cases hslot

theorem Triple.wakeup (hF : Stable S l F) (hhalf : l.half = none) (hdepth : l.depth = 0)
    (hproc : l.proc = l.ctx.slot) (hlocks : ∀ q, .proc q ∉ l.locks) :
    Triple S l F (Process.wakeup chan : Code H Unit) (fun _ => l)
      fun _ k => F k ∧ ∀ q, Woken l chan q k := by
  have loop : Triple S l (fun k => F k ∧ ∀ q, q ∉ slots → Woken l chan q k)
      (Process.wakeup chan : Code H Unit) (fun _ => l)
      fun _ k => F k ∧ ∀ q, q ∉ ([] : List Slot) → Woken l chan q k :=
    Triple.forEach (F := fun rest k => F k ∧ ∀ q, q ∉ rest → Woken l chan q k)
      fun q rest => (Triple.wakeOne (hF.and (.all fun q => .all fun _ => stable_woken))
        hhalf hdepth hproc (hlocks q)).mono (fun _ => id) fun _ k ⟨⟨hf, hrest⟩, hq⟩ =>
          ⟨hf, fun r hr => ?_⟩
  · exact loop.mono (fun k hf => ⟨hf, fun q hq => absurd (List.mem_finRange q) hq⟩)
      fun _ k hk => ⟨hk.1, fun q => hk.2 q (by simp)⟩
  · by_cases heq : r = q
    · subst heq
      exact hq
    · exact hrest r (by simp [heq, hr])

/-! ## A process writes its own state -/

/-- `p->state` and `p->chan`. -/
def Proc.setState (state : ProcState) (chan : Option Chan) (s : Proc) : Proc :=
  { s with state, chan }

omit [DecidableEq H] in
theorem change_setState {state : ProcState} (inv : Inv S.img w) (on : On l h w)
    (hctx : l.ctx = .proc p) (hheld : l.held (.proc p)) (halive : (w.kernel.state p).Alive)
    (halive' : state.Alive)
    (hsleeping : state = .sleeping → w.kernel.phase p = .out ∨
      w.kernel.phase p = .armed ∧ chan = some (.proc p))
    (hrunnable : state = .runnable → w.kernel.phase p ≠ .armed)
    (hmove : state = w.kernel.state p ∨ w.kernel.state p = .running ∧
      (state = .runnable ∨ state = .sleeping)) :
    Change S l w (w.kernel.setProc p (Proc.setState state chan)) := by
  have hslot := inv.data.slot p
  have sw : SlotWrite p w.kernel (w.kernel.setProc p (Proc.setState state chan)) :=
    .setProc _
  have owed : SlotOwed S l.ctx l.held p w.kernel
      (w.kernel.setProc p (Proc.setState state chan)) := by
    refine .setProc (fun hne => absurd hctx hne) rfl (.inl rfl) (fun _ => halive'.live)
      fun _ => iff_of_false ?_ ?_ <;> rintro hzombie
    · rw [show state = .zombie from hzombie] at halive'
      exact halive'
    · rw [hzombie] at halive
      exact halive
  have hstate : (w.kernel.setProc p (Proc.setState state chan)).state p = state := by
    simp [Proc.setState]
  refine sw.change inv on hheld ?_ (sw.others owed hheld (.inr (.same rfl rfl rfl))
    fun _ => ⟨rfl, rfl⟩) (.inl hctx) (fun _ => .inr ⟨h, on.ctx.trans hctx, .inr ?_⟩)
    (fun hne => absurd hctx hne) ?_
  · refine inv.data.setProc (.of_alive halive halive') rfl (fun _ => rfl) rfl
      ⟨hslot.killed, ?_, hsleeping, hrunnable, fun _ => hslot.entry halive, ?_⟩
    · rintro hunused
      rw [show state = .unused from hunused] at halive'
      exact halive'.elim
    · rintro hused
      rw [show state = .used from hused] at halive'
      exact halive'.elim
  · exact (on.held _).mpr hheld
  · rw [hstate]
    refine hmove.imp id fun ⟨hrun, hs⟩ => ⟨?_, ?_⟩
    · rcases hs with rfl | rfl <;> nofun
    · rw [hrun]
      exact .leave _ hctx (hs.imp id .inl)

omit [DecidableEq H] in
/-- To the process itself such a write is a frame, unless it is about to sleep. -/
theorem frame_setState {state : ProcState} {full : Prop}
    (halive : state.Alive) (hphase : k.phase p ≠ .armed) :
    Frame S full (.proc p) (fun _ => False) k (k.setProc p (Proc.setState state chan)) :=
  .setProc rfl (.inl rfl) (fun _ _ => halive) (fun _ h => absurd h hphase)
    (fun _ _ => rfl) fun _ => halive.live

/-! ## yield -/

/-- The process is alive and not about to sleep for a child. -/
def Awake (p : Slot) (k : Kernel) : Prop := (k.state p).Alive ∧ k.phase p ≠ .armed

omit [DecidableEq H] in
theorem stable_awake (hctx : l.ctx = .proc p) : Stable S l (Awake p) := by
  rintro k k' frame ⟨halive, hphase⟩
  have hown := frame.own
  rw [hctx] at hown
  refine ⟨(hown halive).alive, ?_⟩
  obtain ⟨phase, heq, hkept⟩ := (hown halive).shadow
  rw [Kernel.phase, heq]
  rcases hkept with rfl | ⟨harmed, -⟩
  · exact hphase
  · exact absurd harmed hphase

omit [DecidableEq H] in
/-- A process that holds neither its own lock nor `wait_lock` is awake. -/
theorem On.awake (on : On l h w) (inv : Inv S.img w) (hctx : l.ctx = .proc p)
    (hwait : ¬ l.held .wait) (hown : ¬ l.held (.proc p)) :
    Awake p w.kernel ∧ w.kernel.state p = .running := by
  have hrunning : w.kernel.state p = .running :=
    (inv.cur_state (on.ctx.trans hctx)).resolve_right fun hlk => hown ((on.held _).mp hlk)
  refine ⟨⟨by rw [hrunning]; trivial, fun harmed => ?_⟩, hrunning⟩
  exact (on.armed inv hctx harmed).elim hwait hown

omit [DecidableEq H] in
theorem stable_state {state : ProcState} (hheld : l.held (.proc p)) :
    Stable S l fun k => k.state p = state :=
  fun _ _ frame h => (frame.slot p hheld).state.trans h

theorem Triple.releaseOwn {sie : Bool} {locks : List Lock}
    (hF : Stable S (.ofProc p locks sie) F) :
    Triple S (.ofProc p (.proc p :: locks) sie)
      (fun k => F k ∧ k.state p = .running ∧ k.phase p ≠ .armed)
      (Process.release (.proc p)) (fun _ => .ofProc p locks sie)
      fun _ k => F k ∧ Awake p k := by
  have hheld : Local.held (.ofProc p (.proc p :: locks) sie : Local H) (.proc p) :=
    .inl (by simp [Local.ofProc])
  refine Triple.releaseLast (l := .ofProc p locks sie)
    ((hF.cons _).and (stable_running rfl hheld)) (hF.and (stable_awake rfl))
    (fun k hk => ⟨hk.1, by rw [hk.2.1]; trivial, hk.2.2⟩) rfl rfl rfl
    fun h w inv on hk => on.releasable inv (by simp) (fun r hr heq => ?_) fun r hr _ harmed => ?_
  · cases heq
    exact hk.2.1
  · cases hr
    exact absurd harmed hk.2.2

theorem Triple.yield {sie : Bool} (hF : Stable S (.ofProc p [] sie) F)
    (hwindow : ∀ k, F k → S.quiet = true → (k.shadow p).window = false) :
    Triple S (.ofProc p [] sie) F (yield S.img) (fun _ => .ofProc p [] sie)
      fun _ => F := by
  have hheld : Local.held (.ofProc p [.proc p] sie : Local H) (.proc p) :=
    .inl (by simp [Local.ofProc])
  have hG : Stable S (.ofProc p [] sie) fun k => F k ∧ Awake p k :=
    hF.and (stable_awake rfl)
  have hG' : Stable S (.ofProc p [.proc p] sie) fun k => F k ∧ Awake p k :=
    hG.withLocks _ _
  refine .invariant (fun h w inv on hf => ?_) (Triple.bind (.myproc hG rfl)
    fun q => .known fun hq => ?_)
  · exact ⟨hf, (on.awake inv rfl (by simp [Local.held, Local.ofProc])
      (by simp [Local.held, Local.ofProc])).1⟩
  subst hq
  refine (Triple.acquire hG rfl rfl (by simp [Local.ofProc])).bind fun _ => ?_
  refine Triple.bind (G := fun _ k => (F k ∧ Awake p k) ∧ k.state p = .runnable)
    (.write (hG'.and (Acquired.stable hheld)) fun h w inv on hf => ?_) fun _ => ?_
  · obtain ⟨⟨hf, halive, hphase⟩, hacquired⟩ := hf
    have hrunning := hacquired.running p rfl rfl
    have frame : Frame S False (.proc p) (fun _ => False) w.kernel
        (w.kernel.setProc p (Proc.setState .runnable (w.kernel.proc p).chan)) :=
      frame_setState trivial hphase
    refine ⟨change_setState inv on rfl hheld halive trivial (by simp) (fun _ => hphase)
      (.inr ⟨hrunning, .inl rfl⟩), ?_, ?_⟩
    · exact hG _ _ (frame.weaken id fun lk h => by simp [Local.held, Local.ofProc] at h)
        ⟨hf, halive, hphase⟩
    · simp
  refine (Triple.sched (hG'.and (stable_state hheld)) (fun k hk => ?_) hG
    fun k hk _ => hk.1).bind fun _ => ?_
  · obtain ⟨⟨hf, halive, hphase⟩, hstate⟩ := hk
    exact ⟨by rw [hstate]; simp, fun harmed => absurd harmed hphase, hwindow k hf⟩
  · exact (Triple.releaseOwn hF).mono (fun k hk => ⟨hk.1.1, hk.2⟩) fun _ k => And.left

/-! ## sleep -/

/-- A process may go to sleep: it is in none of the functions that wait, or it waits
for a child. -/
def MaySleep (p : Slot) (chan : Option Chan) (lk : Lock) (k : Kernel) : Prop :=
  (k.state p).Alive ∧ (k.phase p = .out ∨
    k.phase p = .armed ∧ k.state p = .running ∧ lk = .wait ∧ chan = some (.proc p))

omit [DecidableEq H] in
theorem stable_maySleep {lk : Lock} (hctx : l.ctx = .proc p) :
    Stable S l (MaySleep p chan lk) := by
  rintro k k' frame ⟨halive, hphase⟩
  have hown := frame.own
  rw [hctx] at hown
  have kept := hown halive
  refine ⟨kept.alive, hphase.imp (fun hout => ?_) fun ⟨harmed, hrunning, hlk⟩ => ?_⟩
  · obtain ⟨phase, heq, hkept⟩ := kept.shadow
    rw [Kernel.phase, heq]
    rcases hkept with rfl | ⟨harmed, -⟩
    · exact hout
    · rw [hout] at harmed
      cases harmed
  · obtain ⟨harmed', hrunning'⟩ := kept.armed harmed hrunning
    exact ⟨harmed', hrunning', hlk⟩

/-- The slot of a process that sleeps or is about to be switched out. -/
def Asleep (p : Slot) (chan : Option Chan) (k : Kernel) : Prop :=
  k.state p = .sleeping ∧ k.chan p = chan ∧
    (k.phase p = .out ∨ k.phase p = .armed ∧ chan = some (.proc p))

omit [DecidableEq H] in
theorem stable_asleep (hheld : l.held (.proc p)) : Stable S l (Asleep p chan) := by
  rintro k k' frame ⟨hstate, hchan, hphase⟩
  have kept := frame.slot p hheld
  have hshadow := kept.still (by rw [hstate]; nofun)
  obtain ⟨parent, hproc⟩ := kept.proc
  refine ⟨kept.state.trans hstate, ?_, ?_⟩
  · rw [Kernel.chan, hproc]
    exact hchan
  · rwa [Kernel.phase, hshadow]

/-- From the assignment of `p->chan` to its clearing. -/
theorem Triple.doze (chan : Option Chan) (lk : Lock) {sie : Bool}
    (hF : Stable S (.ofProc p [] sie) F)
    (hown : ∀ k state chan, F k → state.Alive →
      F (k.setProc p (Proc.setState state chan)))
    (hwindow : ∀ k, F k → S.quiet = true → (k.shadow p).window = false) :
    Triple S (.ofProc p [.proc p] sie)
      (fun k => F k ∧ MaySleep p chan lk k ∧ k.state p = .running)
      (do
        writeProc p fun s => { s with chan, state := .sleeping }
        Process.sched S.img
        writeProc p fun s => { s with chan := none })
      (fun _ => .ofProc p [.proc p] sie)
      fun _ k => F k ∧ k.state p = .running ∧ k.phase p ≠ .armed := by
  have hheld : Local.held (.ofProc p [.proc p] sie : Local H) (.proc p) :=
    .inl (by simp [Local.ofProc])
  have hF' : Stable S (.ofProc p [.proc p] sie) F := hF.withLocks _ _
  refine Triple.bind (G := fun _ k => F k ∧ Asleep p chan k)
    (.write (hF'.and ((stable_maySleep rfl).and (stable_state hheld)))
      fun h w inv on hf => ?_) fun _ => ?_
  · obtain ⟨hf, ⟨halive, hphase⟩, hrunning⟩ := hf
    have hphase' : w.kernel.phase p = .out ∨
        w.kernel.phase p = .armed ∧ chan = some (.proc p) :=
      hphase.imp id fun h => ⟨h.1, h.2.2.2⟩
    refine ⟨change_setState inv on rfl hheld halive trivial (fun _ => hphase') (by simp)
      (.inr ⟨hrunning, .inr rfl⟩), hown _ _ _ hf trivial, ?_, ?_, hphase'⟩
    · simp
    · simp
  refine Triple.bind (G := fun _ k => F k ∧ k.state p = .running ∧ k.phase p ≠ .armed)
    (Triple.sched (hF'.and (stable_asleep hheld)) (fun k hk => ?_) hF fun k hk _ => hk.1)
    fun _ => .write (hF'.and (stable_running rfl hheld)) fun h w inv on hf => ?_
  · obtain ⟨hf, hstate, hchan, hphase⟩ := hk
    refine ⟨by rw [hstate]; simp, fun harmed => ⟨hstate, ?_⟩, hwindow k hf⟩
    rcases hphase with hout | ⟨-, heq⟩
    · rw [hout] at harmed
      cases harmed
    · rw [hchan, heq]
  · obtain ⟨hf, hrunning, hphase⟩ := hf
    have heq : (w.kernel.setProc p fun s => { s with chan := none }) =
        w.kernel.setProc p (Proc.setState .running none) := by
      simp only [Kernel.setProc, Proc.setState, ← hrunning]
      rfl
    rw [heq]
    refine ⟨change_setState inv on rfl hheld (by rw [hrunning]; trivial) trivial (by simp) (by simp)
      (.inl hrunning.symm), hown _ _ _ hf trivial, ?_, by simpa using hphase⟩
    simp [Proc.setState]

/-- `sleep` gives its lock back while it sleeps and has it again in the end. -/
theorem Triple.sleep {sie : Bool} {lk : Lock} (hF : Stable S (.ofProc p [] sie) F)
    (hown : ∀ k state chan, F k → state.Alive →
      F (k.setProc p (Proc.setState state chan)))
    (hwindow : ∀ k, F k → S.quiet = true → (k.shadow p).window = false) :
    Triple S (.ofProc p [lk] sie)
      (fun k => F k ∧ MaySleep p chan lk k ∧ Acquired (.ofProc p [lk] sie : Local H) lk k)
      (Process.sleep S.img chan (some lk)) (fun _ => .ofProc p [lk] sie)
      fun _ k => F k ∧ Acquired (.ofProc p [lk] sie : Local H) lk k ∧ Awake p k := by
  have hlk : Local.held (.ofProc p [lk] sie : Local H) lk := .inl (by simp [Local.ofProc])
  have hpre : Stable S (.ofProc p [lk] sie) fun k =>
      F k ∧ MaySleep p chan lk k ∧ Acquired (.ofProc p [lk] sie : Local H) lk k :=
    (hF.withLocks _ _).and ((stable_maySleep rfl).and (Acquired.stable hlk))
  refine (Triple.myproc hpre rfl).bind fun q => .known fun hq => ?_
  subst hq
  have doze := Triple.doze chan lk hF hown hwindow
  by_cases hne : lk = .proc p
  · subst hne
    refine .ite (fun h => absurd rfl h) fun _ => ?_
    have done : Triple S (.ofProc p [.proc p] sie)
        (fun k => F k ∧ k.state p = .running ∧ k.phase p ≠ .armed)
        (if Lock.proc p ≠ .proc p then do
          Process.release (.proc p)
          Process.acquire (.proc p)
        else Pure.pure () : Code H Unit) (fun _ => .ofProc p [.proc p] sie)
        fun _ k => F k ∧ Acquired (.ofProc p [.proc p] sie : Local H) (.proc p) k ∧
          Awake p k := by
      refine .ite (fun h => absurd rfl h) fun _ => .pure (fun k hk => ⟨hk.1, ⟨by simp, ?_⟩, ?_⟩) rfl
      · rintro r hr -
        cases hr
        exact hk.2.1
      · exact ⟨by rw [hk.2.1]; trivial, hk.2.2⟩
    have first := doze.pre (F := fun k => F k ∧ MaySleep p chan (.proc p) k ∧
      Acquired (.ofProc p [.proc p] sie : Local H) (.proc p) k)
      fun k hk => ⟨hk.1, hk.2.1, hk.2.2.running p rfl rfl⟩
    have whole := first.bind fun _ => done
    simp only [bind_assoc] at whole
    exact whole
  · refine .ite (fun _ => ?_) fun h => absurd hne h
    have hfresh : Lock.proc p ∉ (Local.ofProc p [lk] sie : Local H).locks := by
      simpa [Local.ofProc] using Ne.symm hne
    refine (Triple.acquire hpre rfl rfl hfresh).bind fun _ => ?_
    have hsame : ({ (Local.ofProc p [lk] sie : Local H) with
        locks := [Lock.proc p, lk].erase lk } : Local H) = .ofProc p [.proc p] sie := by
      have hne' : ¬ Lock.proc p = lk := fun h => hne h.symm
      simp [Local.ofProc, hne']
    have hboth : ∀ lk' ∈ [Lock.proc p, lk], Local.held ({ (Local.ofProc p [lk] sie :
        Local H) with locks := [Lock.proc p, lk] } : Local H) lk' := fun _ => .inl
    have letGo : Triple S { (Local.ofProc p [lk] sie : Local H) with
          locks := [Lock.proc p, lk] }
        (fun k => (F k ∧ MaySleep p chan lk k ∧
          Acquired (.ofProc p [lk] sie : Local H) lk k) ∧
          Acquired (.ofProc p [lk] sie : Local H) (.proc p) k)
        (Process.release lk) (fun _ => .ofProc p [.proc p] sie)
        fun _ k => F k ∧ MaySleep p chan lk k ∧ k.state p = .running := by
      rw [← hsame]
      refine .release ((hpre.cons _).and (Acquired.stable (hboth _ (by simp)))) ?_
        (fun k hk => ⟨hk.1.1, hk.1.2.1, hk.2.running p rfl rfl⟩) rfl rfl (by simp) rfl
        fun h w inv on hk => ?_
      · rw [hsame]
        have hheld : Local.held (.ofProc p [.proc p] sie : Local H) (.proc p) :=
          .inl (by simp [Local.ofProc])
        exact (hF.withLocks _ _).and ((stable_maySleep rfl).and (stable_state hheld))
      · refine on.releasable inv hk.1.2.2.calm (fun r hr heq => ?_) fun r hr _ _ => ?_
        · cases hr
          exact absurd heq hne
        · cases hr
          exact .inr ⟨hboth _ (by simp), hne⟩
    have back : Triple S (.ofProc p [.proc p] sie)
        (fun k => F k ∧ k.state p = .running ∧ k.phase p ≠ .armed)
        (if lk ≠ .proc p then do
          Process.release (.proc p)
          Process.acquire lk
        else Pure.pure () : Code H Unit) (fun _ => .ofProc p [lk] sie)
        fun _ k => F k ∧ Acquired (.ofProc p [lk] sie : Local H) lk k ∧ Awake p k := by
      refine .ite (fun _ => ?_) fun h => absurd hne h
      refine (Triple.releaseOwn hF).bind fun _ => ?_
      refine (Triple.acquire (hF.and (stable_awake rfl)) rfl rfl (by simp [Local.ofProc])).mono
        (fun _ => id) fun _ k hk => ⟨hk.1.1, ?_, hk.1.2⟩
      exact ⟨hk.2.calm, hk.2.running⟩
    have whole := doze.bind fun _ => back
    simp only [bind_assoc] at whole
    exact letGo.bind fun _ => whole

end Xv6Kernel.Process
