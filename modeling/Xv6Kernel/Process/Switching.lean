import Xv6Kernel.Process.Calls

/-!
# Switching between a process and its scheduler

`swtch` in both directions, and what `sched` gives back to the process when it is
dispatched again, on whatever hart.
-/

namespace Xv6Kernel.Process

open Xv6Kernel.Foundation Xv6Kernel.Mm

variable {H : Type} [DecidableEq H] {S : Setting H} {α β : Type} {l : Local H} {n : Int}
  {e : Bool} {F F' : Kernel → Prop} {h : H} {w w' : World H} {p : Slot}

/-! ## A switch is a write and a move -/

/-- The hart goes over to another context. -/
def World.move (w : World H) (h : H) (c : Ctx H) : World H :=
  { w with cur := Function.update w.cur h c }

theorem Own.switches {old new : Ctx H} (own : Own S h w w') (inv : Inv S.img w)
    (hold : w.cur h = old) (hnew : ∀ h', w.cur h' ≠ new)
    (inv' : Inv S.img (w'.move h new)) (handoff : ∃ p, Handoff old new h w p)
    (resume : Resume S new h (w'.move h new)) :
    (logic S).Switches old new h w (w'.move h new) where
  handoff := handoff
  from_old := hold
  new_suspended := hnew
  inv := inv'
  allowed := own.moves
  current := by
    have hcur : (w'.move h new).cur = Function.update w.cur h new := by
      rw [World.move, own.cur]
    exact hcur
  rely h' hne := by
    have rely := own.rely inv hne
    exact ⟨by simp [World.move, hne, rely.cur], rely.cpus, rely.csr, rely.locked,
      rely.lockCpu, rely.frame⟩
  keep c hc := by
    have keep := own.keep hc
    exact ⟨keep.own, keep.reborn, keep.forever, keep.cpu⟩
  resume := resume

theorem Inv.quiet_move (inv : Inv S.img w) (hsie : (w.csr h).sstatus.sie = false)
    (c : Ctx H) (h' : H) (hon : ((w.move h c).csr h').sstatus.sie = true) :
    Quiet (w.move h c) h' := by
  have hne : h' ≠ h := by
    rintro rfl
    rw [show (w.move h' c).csr h' = w.csr h' from rfl, hsie] at hon
    cases hon
  have hquiet := inv.quiet h' hon
  exact ⟨hquiet.unlocked, hquiet.noff, by simpa [World.move, hne] using hquiet.proc⟩

theorem Inv.leave (inv : Inv S.img w) (hsie : (w.csr h).sstatus.sie = false)
    (hcur : w.cur h = .proc p) (hlocked : (w.lock (.proc p)).locked = some h)
    (harmed : w.kernel.phase p = .armed →
      w.kernel.state p = .sleeping ∧ w.kernel.chan p = some (.proc p))
    (hmoved : NotMoved S.img p w.kernel) :
    Inv S.img (w.move h (.cpu h)) := by
  have hback : ∀ {h' c}, (w.move h (.cpu h)).cur h' = c →
      h' = h ∧ c = .cpu h ∨ h' ≠ h ∧ w.cur h' = c := by
    intro h' c hc
    by_cases heq : h' = h
    · subst heq
      exact .inl ⟨rfl, by simpa [World.move] using hc.symm⟩
    · exact .inr ⟨heq, by simpa [World.move, heq] using hc⟩
  have hproc : ∀ {h' q}, (w.move h (.cpu h)).cur h' = .proc q →
      h' ≠ h ∧ w.cur h' = .proc q := by
    intro h' q hc
    rcases hback hc with ⟨-, hc⟩ | hc
    · cases hc
    · exact hc
  refine ⟨inv.quiet_move hsie _, inv.lock_cpu, fun {h' h''} hc => ?_,
    fun hc hc' => inv.cur_inj (hproc hc).2 (hproc hc').2,
    fun hc => inv.cur_state (hproc hc).2, fun hc => inv.proc_cur (hproc hc).2,
    fun {h' q} hq => ?_, inv.proc_inj, inv.claimed, inv.calm, fun {q} hq => ?_,
    fun {q} hq halive => ?_, inv.data⟩
  · rcases hback hc with ⟨rfl, hc⟩ | ⟨-, hc⟩
    · cases hc
      rfl
    · exact inv.cur_cpu hc
  · by_cases heq : h' = h
    · subst heq
      have hqp : q = p := Option.some.inj (hq.symm.trans (inv.proc_cur hcur))
      exact .inr (hqp ▸ hlocked)
    · exact (inv.proc_held hq).imp_left fun hc => by simpa [World.move, heq] using hc
  · by_cases hqp : q = p
    · subst hqp
      exact .inl (harmed hq)
    · refine (inv.armed hq).imp_right fun ⟨h', hc, hlk⟩ => ⟨h', ?_, hlk⟩
      have hne : h' ≠ h := by
        rintro rfl
        exact hqp (Ctx.proc.inj (hc.symm.trans hcur))
      simpa [World.move, hne] using hc
  · by_cases hqp : q = p
    · subst hqp
      exact hmoved
    · refine inv.fresh (fun h' hc => ?_) halive
      by_cases heq : h' = h
      · subst heq
        exact hqp (Ctx.proc.inj (hc.symm.trans hcur))
      · exact hq h' (by simpa [World.move, heq] using hc)

/-- The scheduler's hart enters the process it has claimed. -/
theorem Inv.enter (inv : Inv S.img w) (hsie : (w.csr h).sstatus.sie = false)
    (hcur : w.cur h = .cpu h) (hproc : (w.cpus h).proc = some p)
    (hlocked : (w.lock (.proc p)).locked = some h) :
    (∀ h', w.cur h' ≠ .proc p) ∧ Inv S.img (w.move h (.proc p)) := by
  have hfree : ∀ h', w.cur h' ≠ .proc p := by
    intro h' hc
    obtain rfl := inv.proc_inj (inv.proc_cur hc) hproc
    rw [hcur] at hc
    cases hc
  have hback : ∀ {h' c}, (w.move h (.proc p)).cur h' = c →
      h' = h ∧ c = .proc p ∨ h' ≠ h ∧ w.cur h' = c := by
    intro h' c hc
    by_cases heq : h' = h
    · subst heq
      exact .inl ⟨rfl, by simpa [World.move] using hc.symm⟩
    · exact .inr ⟨heq, by simpa [World.move, heq] using hc⟩
  refine ⟨hfree, inv.quiet_move hsie _, inv.lock_cpu, fun {h' h''} hc => ?_,
    fun {h' h'' q} hc hc' => ?_, fun {h' q} hc => ?_, fun {h' q} hc => ?_,
    fun {h' q} hq => ?_, inv.proc_inj, inv.claimed, inv.calm, fun {q} hq => ?_,
    fun {q} hq halive => inv.fresh (fun h' hc => ?_) halive, inv.data⟩
  · rcases hback hc with ⟨-, hc⟩ | ⟨-, hc⟩
    · cases hc
    · exact inv.cur_cpu hc
  · rcases hback hc with ⟨rfl, hq⟩ | ⟨-, hc₁⟩ <;> rcases hback hc' with ⟨rfl, hq'⟩ | ⟨-, hc₂⟩
    · rfl
    · cases hq
      exact absurd hc₂ (hfree _)
    · cases hq'
      exact absurd hc₁ (hfree _)
    · exact inv.cur_inj hc₁ hc₂
  · rcases hback hc with ⟨rfl, hq⟩ | ⟨-, hc⟩
    · cases hq
      exact .inr hlocked
    · exact inv.cur_state hc
  · rcases hback hc with ⟨rfl, hq⟩ | ⟨-, hc⟩
    · cases hq
      exact hproc
    · exact inv.proc_cur hc
  · by_cases heq : h' = h
    · subst heq
      have hqp : q = p := Option.some.inj (hq.symm.trans hproc)
      exact .inl (by simp [World.move, hqp])
    · exact (inv.proc_held hq).imp_left fun hc => by simpa [World.move, heq] using hc
  · refine (inv.armed hq).imp_right fun ⟨h', hc, hlk⟩ => ⟨h', ?_, hlk⟩
    have hne : h' ≠ h := by
      rintro rfl
      rw [hcur] at hc
      cases hc
    simpa [World.move, hne] using hc
  · by_cases heq : h' = h
    · subst heq
      rw [hcur] at hc
      cases hc
    · exact hq h' (by simpa [World.move, heq] using hc)

/-! ## sched -/

theorem wp_masked_choose {K : β → H → World H → Prop} (hF : Stable S l F)
    (inv : Inv S.img w) (masked : Masked l n e F h w)
    (hstep : ∀ w' answer, Inv S.img w' → Masked l n e F h w' → K answer h w') :
    (logic S).wp (choose β) K h w := by
  intro h' w' env inv' answer
  obtain ⟨rfl, r, -⟩ := env_off inv masked.sie env
  exact hstep w' answer inv' (masked.rely hF r)

/-- What `sched` needs of the process that calls it. -/
structure Ready (S : Setting H) (p : Slot) (k : Kernel) : Prop where
  state : k.state p ≠ .running
  armed : k.phase p = .armed → k.state p = .sleeping ∧ k.chan p = some (.proc p)
  window : S.quiet = true → (k.shadow p).window = false

omit [DecidableEq H] in
/-- `swtch` saves registers that do not look like those of a new process. -/
theorem change_context (inv : Inv S.img w) (on : On l h w) (hctx : l.ctx = .proc p)
    (hheld : l.held (.proc p)) (ready : Ready S p w.kernel) {regs : Context}
    (hregs : InSched S.img p regs) :
    Change S l w (w.kernel.setProc p fun s => { s with context := regs }) := by
  have hslot := inv.data.slot p
  have sw : SlotWrite p w.kernel (w.kernel.setProc p fun s => { s with context := regs }) :=
    .setProc _
  have owed : SlotOwed S l.ctx l.held p w.kernel
      (w.kernel.setProc p fun s => { s with context := regs }) :=
    .setProc (fun hne => absurd hctx hne) rfl (.inl rfl) id fun _ => .rfl
  refine sw.change inv on hheld ?_ (sw.others owed hheld (.inr (.same rfl rfl rfl))
    fun _ => ⟨rfl, rfl⟩) (.inl hctx) (fun harmed => .inl ?_) (fun hne => absurd hctx hne)
    (.inl (by simp))
  · exact inv.data.setProc (.refl _) rfl (fun _ => rfl) rfl
      ⟨hslot.killed, hslot.unused, hslot.sleeping, hslot.runnable,
        fun _ hra => absurd hra hregs.1, hslot.used⟩
  · have hready := ready.armed harmed
    exact ⟨by simpa using hready.1, by simpa using hready.2⟩

omit [DecidableEq H] in
/-- The scheduler finds the hart as `sched` leaves it. -/
theorem On.leave {sie : Bool} (on : On (.ofProc p [.proc p] sie) h w) [DecidableEq H]
    (k' : Kernel) :
    On ⟨.cpu h, [.proc p], none, 0, sie, some p⟩ h
      (World.move { w with kernel := k' } h (.cpu h)) where
  ctx := by simp [World.move]
  held := on.held
  cpu := on.cpu
  nodup := on.nodup
  half := on.half
  proc := on.proc
  noff := on.noff
  unmasked := on.unmasked
  masked := on.masked

omit [DecidableEq H] in
theorem On.handoff {sie : Bool} {c : Ctx H} (on : On ⟨c, [.proc p], none, 0, sie, some p⟩ h w)
    {old new : Ctx H}
    (hswitch : old = .proc p ∧ new = .cpu h ∨ old = .cpu h ∧ new = .proc p) :
    Handoff old new h w p where
  switch := hswitch
  locked lk := by simp [on.held, Local.held]
  cpu := on.cpu _ (by simp)
  noff := by simpa using on.noff
  sie := (on.masked (by simp)).1

/-- What a process knows when it is dispatched again. -/
structure Back (S : Setting H) (p : Slot) (regs : Context) (k k' : Kernel) : Prop where
  alive : (k.state p).Alive
  kept : KeptData S True p (k.setProc p fun s => { s with context := regs }) k'
  forever : Forever k k'
  running : k'.state p = .running
  phase : k'.phase p ≠ .armed

theorem wp_swtchToCpu {sie : Bool} {Q : Unit → H → World H → Prop}
    (hF : Stable S (.ofProc p [.proc p] sie) F) (hready : ∀ k, F k → Ready S p k)
    (inv : Inv S.img w) (on : On (.ofProc p [.proc p] sie) h w) (hf : F w.kernel)
    (hback : ∀ k regs h' w' sie', F k → Inv S.img w' →
      On (.ofProc p [.proc p] sie') h' w' → Back S p regs k w'.kernel → Q () h' w') :
    (logic S).wp (swtchToCpu S.img p) Q h w := by
  have masked := on.to_masked (by simp [Local.ofProc]) hf
  refine ((logic S).wp_bind ..).mpr (wp_masked_read hF inv masked fun w₁ inv₁ m₁ => ?_)
  refine ((logic S).wp_bind ..).mpr
    (wp_masked_choose hF inv₁ m₁ fun w₂ ⟨regs, hregs⟩ inv₂ m₂ => ?_)
  intro h' w₃ env inv₃
  obtain ⟨rfl, r, -⟩ := env_off inv₂ m₂.sie env
  have m₃ := m₂.rely hF r
  have on₃ : On (.ofProc p [.proc p] sie) h' w₃ := m₃.on rfl (by simp [Local.ofProc])
  have ready := hready _ m₃.data
  have hlocked : (w₃.lock (.proc p)).locked = some h' :=
    (on₃.held _).mpr (by simp [Local.held, Local.ofProc])
  have change := change_context inv₃ on₃ rfl (by simp [Local.held, Local.ofProc]) ready hregs
  have inv₄ := change.inv inv₃
  have hnew : ∀ h₁, w₃.cur h₁ ≠ .cpu h' := by
    intro h₁ hc
    obtain rfl := inv₃.cur_cpu hc
    rw [on₃.ctx] at hc
    cases hc
  refine ⟨(change.own on₃).switches inv₃ on₃.ctx hnew ?_ ⟨p, on₃.handoff (.inl ⟨rfl, rfl⟩)⟩
    ⟨p, sie, on₃.leave _, by simpa [World.move] using ready.state⟩, ?_⟩
  · refine inv₄.leave m₃.sie on₃.ctx hlocked (fun harmed => ?_) fun hra => ?_
    · simpa using ready.armed harmed
    · exact absurd (by simpa using hra) hregs.1
  -- the process is dispatched again
  intro h₅ w₅ inv₅ resume keep hfresh
  obtain ⟨⟨sie', on₅⟩, hrunning, hphase, -⟩ := resume
  have halive₅ : (w₅.kernel.state p).Alive := by rw [hrunning]; trivial
  have halive : (w₃.kernel.state p).Alive := by
    by_contra hdead
    have hra := keep.reborn p rfl (by simpa [transfer] using hdead) halive₅
    have hstart : (platform S.img S.quiet : Platform _ H _ _).fresh (.proc p) w₅ =
        some forkret := if_pos hra
    rw [hstart] at hfresh
    cases hfresh
  refine hback w₃.kernel regs h₅ w₅ sie' m₃.data inv₅ on₅
    ⟨halive, ?_, ⟨keep.forever.log, ?_⟩, hrunning, hphase⟩
  · exact keep.own (by simpa [transfer] using halive)
  · intro q hlive hc
    simpa [transfer] using keep.forever.orphan q (by simpa [transfer] using hlive) hc

omit [DecidableEq H] in
/-- While a process is away its own data stay, but for the saved registers. -/
theorem Back.frame {regs : Context} {k k' : Kernel} (back : Back S p regs k k')
    (ready : Ready S p k) : Frame S False (.proc p) (fun _ => False) k k' where
  own _ :=
    { alive := back.kept.alive
      shadow := back.kept.shadow
      armed := fun _ hrunning => absurd hrunning ready.state
      pid := by simpa using back.kept.pid
      context := by
        rintro (hfalse | ⟨hquiet, hwindow⟩)
        · exact hfalse.elim
        · rw [ready.window hquiet] at hwindow
          cases hwindow
      children := fun q hq => by
        simpa using back.kept.children q (by simpa using hq)
      initproc := back.kept.initproc }
  slot _ := False.elim
  wait := False.elim
  pids := False.elim
  forever := back.forever

omit [DecidableEq H] in
theorem stable_running (hctx : l.ctx = .proc p) (hheld : l.held (.proc p)) :
    Stable S l fun k => k.state p = .running ∧ k.phase p ≠ .armed := by
  rintro k k' frame ⟨hrunning, hphase⟩
  refine ⟨(frame.slot p hheld).state.trans hrunning, ?_⟩
  have hown := frame.own
  rw [hctx] at hown
  obtain ⟨phase, heq, hkept⟩ := (hown (by rw [hrunning]; trivial)).shadow
  rw [Kernel.phase, heq]
  rcases hkept with rfl | ⟨harmed, -⟩
  · exact hphase
  · exact absurd harmed hphase

omit [DecidableEq H] in
/-- What a process may rely on with no lock, it may rely on with locks. -/
theorem Stable.withLocks {sie : Bool} (hF : Stable S (.ofProc p [] sie) F)
    (locks : List Lock) (sie' : Bool) : Stable S (.ofProc p locks sie') F :=
  fun k k' frame hf => hF k k' (frame.weaken id fun lk h => by
    simp [Local.held, Local.ofProc] at h) hf

/-- A process that has called `sched` comes back with its own lock held, running
and not about to sleep; a zombie does not come back. -/
theorem Triple.sched {sie : Bool} (hF : Stable S (.ofProc p [.proc p] sie) F)
    (hready : ∀ k, F k → Ready S p k) (hF' : Stable S (.ofProc p [] sie) F')
    (hback : ∀ k, F k → (k.state p).Alive → F' k) :
    Triple S (.ofProc p [.proc p] sie) F (sched S.img) (fun _ => .ofProc p [.proc p] sie)
      fun _ k => F' k ∧ k.state p = .running ∧ k.phase p ≠ .armed := by
  have hone : (Local.ofProc p [.proc p] sie : Local H).locks.length +
      (Local.ofProc p [.proc p] sie : Local H).depth ≠ 0 := by simp [Local.ofProc]
  refine (Triple.myproc hF rfl).bind fun q => .known fun hq => ?_
  subst hq
  refine (Triple.holding hF hone rfl).bind fun held => .known fun hheld => ?_
  obtain rfl := hheld.mpr (by simp [Local.ofProc])
  refine .ite (fun h => absurd h (by simp)) fun _ => ?_
  have readNoff : Triple S (.ofProc p [.proc p] sie) F (Process.readCpu (·.noff))
      (fun _ => .ofProc p [.proc p] sie) fun noff k => F k ∧ noff = 1 :=
    .act hF fun _ _ inv' on' hf => ⟨guarantee_refl inv', on', hf, on'.noff⟩
  refine readNoff.bind fun noff => .known fun hnoff => .ite (absurd hnoff) fun _ => ?_
  have readState : Triple S (.ofProc p [.proc p] sie) F (Process.readProc p (·.state))
      (fun _ => .ofProc p [.proc p] sie) fun state k => F k ∧ state ≠ .running :=
    .readProc hF fun _ w _ _ hf => ⟨hf, (hready _ hf).state⟩
  refine readState.bind fun state => .known fun hstate =>
    .ite (fun h => absurd h hstate) fun _ => ?_
  have readIntr : Triple S (.ofProc p [.proc p] sie) F Process.intrGet
      (fun _ => .ofProc p [.proc p] sie) fun on k => F k ∧ on = false :=
    .act hF fun _ _ inv' on' hf => ⟨guarantee_refl inv', on', hf, (on'.masked hone).1⟩
  refine readIntr.bind fun on => .known fun hon =>
    .ite (fun h => absurd (h.symm.trans hon) (by simp)) fun _ => ?_
  have readIntena : Triple S (.ofProc p [.proc p] sie) F (Process.readCpu (·.intena))
      (fun _ => .ofProc p [.proc p] sie) fun intena k => F k ∧ intena = sie :=
    .act hF fun _ _ inv' on' hf => ⟨guarantee_refl inv', on', hf, (on'.masked hone).2⟩
  refine readIntena.bind fun intena => .known fun hintena => ?_
  subst hintena
  intro h w inv on hf
  refine ((logic S).wp_bind ..).mpr
    (wp_swtchToCpu hF hready inv on hf fun k regs h' w' sie' hk inv' on' back => ?_)
  have hG : Stable S (.ofProc p [.proc p] sie') fun k =>
      F' k ∧ k.state p = .running ∧ k.phase p ≠ .armed :=
    (hF'.withLocks _ _).and
      (stable_running rfl (by simp [Local.held, Local.ofProc]))
  have hF'' : F' w'.kernel := by
    refine hF' _ _ ((back.frame (hready k hk)).weaken id fun lk h => ?_)
      (hback k hk back.alive)
    simp [Local.held, Local.ofProc] at h
  have masked := on'.to_masked hone (F := fun k =>
    F' k ∧ k.state p = .running ∧ k.phase p ≠ .armed) ⟨hF'', back.running, back.phase⟩
  refine wp_masked_writeCpu hG inv' masked (fun _ => rfl) fun w₁ _ hnoff _ m _ => ?_
  exact ⟨⟨⟨m.holds.ctx, m.holds.held, m.holds.cpu, m.holds.nodup, m.holds.half,
    m.holds.proc⟩, m.noff.trans hnoff, fun hzero => absurd hzero hone,
    fun _ => ⟨m.sie, m.intena⟩⟩, m.data⟩

end Xv6Kernel.Process
