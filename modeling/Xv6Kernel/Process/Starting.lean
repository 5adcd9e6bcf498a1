import Xv6Kernel.Process.Scheduling

/-!
# The first run of a process

What a process notes about itself, and `forkret`, where a process starts with its own
lock held.
-/

namespace Xv6Kernel.Process

open Xv6Kernel.Foundation Xv6Kernel.Mm

variable {H : Type} {S : Setting H} {l : Local H} {F : Kernel → Prop} {h : H}
  {w : World H} {p : Slot} {k : Kernel} {sie : Bool}

/-! ## Notes of a process about itself -/

theorem change_ownShadow {g : Shadow → Shadow} (inv : Inv S.img w) (on : On l h w)
    (hctx : l.ctx = .proc p) (data : Data S.img (w.kernel.setShadow p g))
    (hserial : (g (w.kernel.shadow p)).serial = w.kernel.serial p)
    (hcreator : (g (w.kernel.shadow p)).creator = w.kernel.creator p)
    (hentry : (g (w.kernel.shadow p)).entry = (w.kernel.shadow p).entry)
    (harmed : (g (w.kernel.shadow p)).phase = .armed →
      w.kernel.phase p = .armed ∨ l.held .wait) :
    Change S l w (w.kernel.setShadow p g) := by
  have hcur : w.cur h = .proc p := on.ctx.trans hctx
  have hsafe : w.kernel.state p = .running ∨ l.held (.proc p) :=
    (inv.cur_state hcur).imp id (on.held _).mp
  have hne {q : Slot} (hq : q ≠ p) : (w.kernel.setShadow p g).shadow q = w.kernel.shadow q :=
    Kernel.setShadow_shadow_of_ne _ g hq
  refine .of_others inv on data (.ownShadow hctx hsafe hserial hcreator hentry
    fun hwait hg => (harmed hg).resolve_right hwait) (fun _ => .inl rfl) (fun {q} hq => ?_)
    (fun {q} hq halive => ?_) fun _ => .inl rfl
  · by_cases heq : q = p
    · subst heq
      refine (harmed (by simpa using hq)).imp (fun hold => ⟨hold, rfl, rfl⟩) fun hwait => ?_
      exact .inr ⟨h, hcur, .inl ((on.held _).mpr hwait)⟩
    · rw [Kernel.phase, hne heq] at hq
      exact .inl ⟨hq, rfl, rfl⟩
  · have heq : q ≠ p := fun heq => hq h (heq ▸ hcur)
    exact (inv.fresh hq halive).congr rfl (hne heq)

/-- A note that leaves alone what the invariant speaks of. -/
theorem Data.note {g : Shadow → Shadow} {img : Image} (data : Data img k)
    (hserial : (g (k.shadow p)).serial = k.serial p)
    (hcreator : (g (k.shadow p)).creator = k.creator p)
    (hentry : (g (k.shadow p)).entry = (k.shadow p).entry)
    (hphase : (g (k.shadow p)).phase = k.phase p) : Data img (k.setShadow p g) := by
  have hslot := data.slot p
  refine data.setShadow hserial hcreator (.inl hphase)
    ⟨hslot.killed, hslot.unused, fun hs => ?_, fun hs => ?_, fun halive hra => ?_,
      fun hs => ?_⟩
  · rw [hphase]
    exact hslot.sleeping hs
  · rw [hphase]
    exact hslot.runnable hs
  · rw [hentry]
    exact hslot.entry halive hra
  · rw [hserial]
    exact hslot.used hs

/-- Nobody writes the history of a process that is not about to sleep. -/
theorem KeptData.same {full : Prop} {k' : Kernel} (kept : KeptData S full p k k')
    (hphase : k.phase p ≠ .armed) : k'.shadow p = k.shadow p := by
  obtain ⟨phase, heq, hkept⟩ := kept.shadow
  rw [heq]
  rcases hkept with rfl | ⟨harmed, -⟩
  · rfl
  · exact absurd harmed hphase

/-! ## forkret -/

/-- A process that has just been entered for the first time. -/
structure Fresh (S : Setting H) (p : Slot) (k : Kernel) : Prop where
  running : k.state p = .running
  ra : (k.context p).ra = S.img.forkret
  s0 : (k.context p).s0 = (k.shadow p).entry
  phase : k.phase p = .out
  calledOn : (k.shadow p).calledOn = false
  calledOff : (k.shadow p).calledOff = false

/-- Between the release of the lock and the last read of `s0`. -/
structure InWindow (S : Setting H) (p : Slot) (sie : Bool) (k : Kernel) : Prop where
  alive : (k.state p).Alive
  phase : k.phase p = .out
  window : (k.shadow p).window = true
  startedOn : (k.shadow p).startedOn = sie
  calledOn : (k.shadow p).calledOn = false
  calledOff : (k.shadow p).calledOff = false
  s0 : S.quiet = true → (k.context p).s0 = (k.shadow p).entry

theorem stable_fresh (hctx : l.ctx = .proc p) (hheld : l.held (.proc p)) :
    Stable S l (Fresh S p) := by
  intro k k' frame fresh
  have hown := frame.own
  rw [hctx] at hown
  have hshadow := (hown (by rw [fresh.running]; trivial)).same (by rw [fresh.phase]; nofun)
  obtain ⟨parent, hproc⟩ := (frame.slot p hheld).proc
  have hcontext : k'.context p = k.context p := by rw [Kernel.context, hproc]; rfl
  refine ⟨(frame.slot p hheld).state.trans fresh.running, ?_, ?_, ?_, ?_, ?_⟩
  · rw [hcontext, fresh.ra]
  · rw [hcontext, hshadow, fresh.s0]
  · rw [Kernel.phase, hshadow]
    exact fresh.phase
  · rw [hshadow, fresh.calledOn]
  · rw [hshadow, fresh.calledOff]

theorem stable_inWindow (hctx : l.ctx = .proc p) : Stable S l (InWindow S p sie) := by
  intro k k' frame win
  have hown := frame.own
  rw [hctx] at hown
  have kept := hown win.alive
  have hshadow := kept.same (by rw [win.phase]; nofun)
  refine ⟨kept.alive, ?_, ?_, ?_, ?_, ?_, fun hquiet => ?_⟩
  · rw [Kernel.phase, hshadow]
    exact win.phase
  · rw [hshadow, win.window]
  · rw [hshadow, win.startedOn]
  · rw [hshadow, win.calledOn]
  · rw [hshadow, win.calledOff]
  · rw [kept.context (.inr ⟨hquiet, win.window⟩), hshadow, win.s0 hquiet]

theorem stable_atHome (hctx : l.ctx = .proc p) : Stable S l (AtHome p sie) := by
  intro k k' frame home
  have hown := frame.own
  rw [hctx] at hown
  have kept := hown home.alive
  have hshadow := kept.same (by rw [home.phase]; nofun)
  refine ⟨kept.alive, ?_, ?_, ?_⟩
  · rw [Kernel.phase, hshadow]
    exact home.phase
  · rw [hshadow, home.window]
  · rw [SieOk, hshadow]
    exact home.sie

variable [DecidableEq H]

/-- `forkret` from the call of the entry function on. -/
theorem Triple.callEntry :
    Triple S (.ofProc p [] sie) (InWindow S p sie) (do
      if (← Process.readProc p (·.context.s0)) ≠ 0 then
        let fn ← Process.act fun _ w =>
          ((w.kernel.proc p).context.s0,
            { w with kernel := w.kernel.setShadow p fun s => { s with window := false } })
        .perform (.enter fn)
        Process.panic "kernel thread returned"
      Process.printf "forkret: no kernel task and userret not implemented\n"
      Process.panic "forkret" : Code H Empty) (fun never => never.elim)
      fun never _ => never.elim := by
  have hwin : Stable S (.ofProc p [] sie) (InWindow S p sie) := stable_inWindow rfl
  refine Triple.bind (.readProc (K := fun _ => InWindow S p sie) hwin
    fun _ _ _ _ hf => hf) fun s0 => .ite (fun _ => ?_) fun _ => ?_
  · refine Triple.bind (m := fun _ => .ofProc p [] sie) (G := fun fn k =>
      AtHome p sie k ∧ (S.quiet = true → fn = (k.shadow p).entry))
      (.act hwin fun h w inv on win => ?_) fun fn => ?_
    · have data : Data S.img (w.kernel.setShadow p fun s => { s with window := false }) :=
        inv.data.note rfl rfl rfl rfl
      have change := change_ownShadow inv on rfl data rfl rfl rfl .inl
      refine ⟨(change.own on).guarantee inv (change.inv inv), on.write _, ?_, fun hq => ?_⟩
      · refine ⟨win.alive, ?_, by simp, fun _ => ?_⟩
        · rw [Kernel.setShadow_phase, Function.update_self]
          exact win.phase
        · simp [win.startedOn, win.calledOn]
      · rw [Kernel.setShadow_shadow_self]
        exact win.s0 hq
    · have hhome : Stable S (.ofProc p [] sie : Local H) fun k =>
          AtHome p sie k ∧ (S.quiet = true → fn = (k.shadow p).entry) := by
        rintro k k' frame ⟨home, hfn⟩
        have kept : KeptData S False p k k' := frame.own home.alive
        have hshadow := kept.same (by rw [home.phase]; nofun)
        refine ⟨stable_atHome rfl _ _ frame home, ?_⟩
        rwa [hshadow]
      refine Triple.bind (m := fun _ => .ofProc p [] sie) (G := fun _ _ => False)
        (.call rfl hhome (fun h w _ _ hf => ⟨p, sie, rfl, hf⟩)
          fun _ _ _ _ _ _ never => never.elim) fun _ => .unreachable fun _ _ _ _ => id
  · exact (Triple.printf hwin rfl rfl (by simp [Local.ofProc]) rfl _).bind fun _ =>
      .panic (by decide)

theorem Triple.forkret :
    Triple S (.ofProc p [.proc p] sie) (Fresh S p) (Process.forkret : Code H Empty)
      (fun never => never.elim) fun never _ => never.elim := by
  have hheld : Local.held (.ofProc p [.proc p] sie : Local H) (.proc p) :=
    .inl (by simp [Local.ofProc])
  have hfresh : Stable S (.ofProc p [.proc p] sie) (Fresh S p) := stable_fresh rfl hheld
  have hwin : Stable S (.ofProc p [] sie) (InWindow S p sie) := stable_inWindow rfl
  refine (Triple.myproc hfresh rfl).bind fun q => .known fun hq => ?_
  subst hq
  refine Triple.bind (m := fun _ => .ofProc p [.proc p] sie)
    (G := fun q k => Fresh S p k ∧ q = p) (.pure (fun _ hf => ⟨hf, rfl⟩) rfl)
    fun q => .known fun hq => ?_
  subst hq
  refine Triple.bind (m := fun _ => .ofProc q [.proc q] sie) (G := fun _ k =>
    InWindow S q sie k ∧ k.state q = .running ∧ k.phase q ≠ .armed)
    (.act hfresh fun h w inv on fresh => ?_) fun _ => ?_
  · have data : Data S.img (w.kernel.setShadow q fun s =>
        { s with window := true, startedOn := (w.cpus h).intena }) :=
      inv.data.note rfl rfl rfl rfl
    have change := change_ownShadow inv on rfl data rfl rfl rfl .inl
    have hphase : (w.kernel.setShadow q fun s =>
        { s with window := true, startedOn := (w.cpus h).intena }).phase q = .out := by
      rw [Kernel.setShadow_phase, Function.update_self]
      exact fresh.phase
    refine ⟨(change.own on).guarantee inv (change.inv inv), on.write _, ?_, fresh.running, ?_⟩
    · refine ⟨?_, hphase, by simp, ?_, ?_, ?_, fun _ => ?_⟩
      · rw [Kernel.setShadow_state, fresh.running]
        trivial
      · rw [Kernel.setShadow_shadow_self]
        exact (on.masked (by simp [Local.ofProc])).2
      · simpa using fresh.calledOn
      · simpa using fresh.calledOff
      · rw [Kernel.setShadow_shadow_self]
        exact fresh.s0
    · rw [hphase]
      simp
  refine ((Triple.releaseOwn hwin).mono (fun _ => id) fun _ _ => And.left).bind fun _ => ?_
  refine Triple.bind (.read (K := fun _ => InWindow S q sie) hwin fun _ _ _ _ hf => hf)
    fun first => .ite (fun _ => ?_) fun _ => Triple.callEntry
  refine (Triple.untouched (f := fun k => ((), { k with first := false })) hwin
    fun _ => ⟨rfl, rfl, rfl, rfl, rfl, rfl, rfl⟩).bind fun _ => ?_
  exact (Triple.printf hwin rfl rfl (by simp [Local.ofProc]) rfl _).bind fun _ =>
    Triple.callEntry

/-- A process that is entered for the first time is safe in `forkret`. -/
theorem forkret_spec {Q : Empty → H → World H → Prop} (inv : Inv S.img w)
    (hra : (w.kernel.context p).ra = S.img.forkret) (resume : Resume S (.proc p) h w) :
    (logic S).wp Process.forkret Q h w := by
  obtain ⟨⟨sie, on⟩, hrunning, -, hmoved⟩ := resume
  obtain ⟨hphase, -, hon, hoff⟩ := hmoved hra
  have fresh : Fresh S p w.kernel :=
    ⟨hrunning, hra, (inv.data.slot p).entry (by rw [Kernel.proc_state, hrunning]; trivial) hra,
      hphase, hon, hoff⟩
  exact Triple.forkret.wp inv on fresh fun never => never.elim

end Xv6Kernel.Process
