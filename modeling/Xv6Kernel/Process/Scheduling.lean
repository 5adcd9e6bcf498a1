import Xv6Kernel.Process.Forking
import Xv6Kernel.Process.Undisturbed

/-!
# The scheduler

The scheduler claims a runnable process under its lock, switches to it with the lock
held, and gives the lock back when the process has switched back.
-/

namespace Xv6Kernel.Process

open Xv6Kernel.Foundation Xv6Kernel.Mm

variable {H : Type} {S : Setting H} {l : Local H} {F : Kernel → Prop} {n : Int} {e sie : Bool}
  {h h₀ : H} {w w' : World H} {p q : Slot} {k : Kernel} {img : Image}

/-- The hart `h` in its scheduler. -/
def Local.ofCpu (h : H) (locks : List Lock) (sie : Bool) (proc : Option Slot) : Local H :=
  ⟨.cpu h, locks, none, 0, sie, proc⟩

theorem Local.bare_ofCpu (h : H) (sie : Bool) : (Local.ofCpu h [] sie none).Bare :=
  ⟨rfl, rfl, rfl, rfl⟩

/-! ## Claiming a process -/

theorem Inv.setCpuProc [DecidableEq H] (inv : Inv img w) (hsie : (w.csr h).sstatus.sie = false)
    (hcur : w.cur h = .cpu h) (f : Cpu → Cpu)
    (hheld : ∀ r, (f (w.cpus h)).proc = some r →
      (w.lock (.proc r)).locked = some h ∧ ∀ h', h' ≠ h → (w.cpus h').proc ≠ some r)
    (hclaimed : ∀ r, (w.cpus h).proc = some r →
      w.kernel.state r ≠ .running ∨ (f (w.cpus h)).proc = some r) :
    Inv img (w.setCpu h f) := by
  have hself : (w.setCpu h f).cpus h = f (w.cpus h) := Function.update_self ..
  have hother : ∀ {h'}, h' ≠ h → (w.setCpu h f).cpus h' = w.cpus h' := fun hne =>
    Function.update_of_ne hne _ _
  refine ⟨fun h' hon => ?_, inv.lock_cpu, inv.cur_cpu, inv.cur_inj, inv.cur_state,
    fun {h' r} hc => ?_, fun {h' r} hr => ?_, fun {h₁ h₂ r} hr hr' => ?_, fun {r} hr => ?_,
    inv.calm, inv.armed, inv.fresh, inv.data⟩
  · have hne : h' ≠ h := by
      rintro rfl
      rw [show ((w.setCpu h' f).csr h') = w.csr h' from rfl, hsie] at hon
      cases hon
    have hquiet := inv.quiet h' hon
    exact ⟨hquiet.unlocked, by rw [hother hne, hquiet.noff],
      by rw [hother hne, hquiet.proc]; rfl⟩
  · have hne : h' ≠ h := by
      rintro rfl
      rw [show (w.setCpu h' f).cur h' = w.cur h' from rfl, hcur] at hc
      cases hc
    rw [hother hne]
    exact inv.proc_cur hc
  · by_cases heq : h' = h
    · subst heq
      rw [hself] at hr
      exact .inr (hheld r hr).1
    · rw [hother heq] at hr
      exact inv.proc_held hr
  · by_cases h₁h : h₁ = h <;> by_cases h₂h : h₂ = h
    · rw [h₁h, h₂h]
    · rw [h₁h, hself] at hr
      rw [hother h₂h] at hr'
      exact absurd hr' ((hheld r hr).2 h₂ h₂h)
    · rw [h₂h, hself] at hr'
      rw [hother h₁h] at hr
      exact absurd hr ((hheld r hr').2 h₁ h₁h)
    · rw [hother h₁h] at hr
      rw [hother h₂h] at hr'
      exact inv.proc_inj hr hr'
  · obtain ⟨h', hp⟩ := inv.claimed hr
    by_cases heq : h' = h
    · subst heq
      refine ⟨h', ?_⟩
      rw [hself]
      exact (hclaimed r hp).resolve_left fun hne => hne hr
    · exact ⟨h', by rw [hother heq, hp]⟩

/-- Nobody is on a process that waits to be scheduled with its lock held elsewhere. -/
theorem Inv.unclaimed (inv : Inv img w) (hstate : w.kernel.state p ≠ .running)
    (hlocked : (w.lock (.proc p)).locked = some h) {h' : H} (hne : h' ≠ h) :
    (w.cpus h').proc ≠ some p := by
  intro hp
  have hlock : (w.lock (.proc p)).locked = some h' := by
    refine (inv.proc_held hp).elim (fun hc => ?_) id
    exact (inv.cur_state hc).resolve_left hstate
  rw [hlocked] at hlock
  exact hne (Option.some.inj hlock).symm

/-- The process becomes running, for the hart that has put it into `mycpu()->proc`. -/
theorem change_dispatch (inv : Inv S.img w) (on : On (.ofCpu h₀ [.proc p] sie (some p)) h w)
    (hstate : w.kernel.state p = .runnable) :
    Change S (.ofCpu h₀ [.proc p] sie (some p)) w
      (w.kernel.setProc p fun s => { s with state := .running }) := by
  have hslot := inv.data.slot p
  have hheld : Local.held (.ofCpu h₀ [.proc p] sie (some p) : Local H) (.proc p) :=
    .inl (by simp [Local.ofCpu])
  have hlocked := (on.held _).mpr hheld
  have sw : SlotWrite p w.kernel (w.kernel.setProc p fun s => { s with state := .running }) :=
    .setProc _
  have hphase : w.kernel.phase p ≠ .armed := hslot.runnable hstate
  have owed : SlotOwed S (.cpu h₀) (Local.held (.ofCpu h₀ [.proc p] sie (some p) : Local H)) p
      w.kernel (w.kernel.setProc p fun s => { s with state := .running }) := by
    refine ⟨fun _ _ => .of_setProc rfl rfl trivial (fun h => absurd h hphase) fun _ => rfl,
      fun _ hdead => absurd (by rw [hstate]; trivial) hdead, fun r _ hr => ?_, fun _ => ?_,
      fun _ hc => ?_, fun _ _ => id⟩
    · simpa [Function.update_eq_self] using hr
    · simp [hstate]
    · simpa [Function.update_eq_self] using hc
  have data : Data S.img (w.kernel.setProc p fun s => { s with state := .running }) :=
    inv.data.setProc (.of_alive (by rw [hstate]; trivial) trivial) rfl (fun _ => rfl) rfl
      ⟨hslot.killed, nofun, nofun, nofun, fun _ => hslot.entry (by
        rw [show (w.kernel.proc p).state = .runnable from hstate]; trivial), nofun⟩
  have others := sw.others owed hheld (.inr (.same rfl rfl rfl)) fun _ => ⟨rfl, rfl⟩
  refine ⟨fun {h' q} hq => ?_, fun {q} hq => ?_, fun hwait => ?_, fun {q} hq => ?_,
    fun {q} hq halive => ?_, data, others, fun q => ?_⟩
  · by_cases heq : q = p
    · exact .inl (by simp [heq])
    · rw [sw.state heq]
      exact inv.cur_state hq
  · by_cases heq : q = p
    · exact ⟨h, heq ▸ on.proc⟩
    · rw [sw.state heq] at hq
      exact inv.claimed hq
  · refine (others.wait fun hheld' => ?_).calm (inv.calm hwait)
    rw [(on.held _).mpr hheld'] at hwait
    cases hwait
  · have heq : q ≠ p := by
      rintro rfl
      exact hphase hq
    refine (inv.armed hq).imp (fun hsleep => ?_) id
    exact ⟨(sw.state heq).trans hsleep.1, (sw.chan heq).trans hsleep.2⟩
  · have halive' : (w.kernel.state q).Alive := by
      by_cases heq : q = p
      · rw [heq, hstate]
        trivial
      · rwa [sw.state heq] at halive
    refine (inv.fresh hq halive').congr ?_ rfl
    simp [Function.update_eq_self]
  · by_cases heq : q = p
    · subst heq
      have hmove : StateMove (.ofCpu h₀ [.proc q] sie (some q) : Local H).ctx q w.kernel
          .runnable .running := .dispatch h₀ rfl
      rw [hstate]
      simpa using hmove
    · rw [sw.state heq]
      exact .still _

variable [DecidableEq H]

/-- The two assignments with which the scheduler takes a process. -/
def World.dispatch (w : World H) (h : H) (p : Slot) : World H :=
  { w.setCpu h (fun c => { c with proc := some p }) with
    kernel := w.kernel.setProc p fun s => { s with state := .running } }

theorem guarantee_dispatch (inv : Inv S.img w) (on : On (.ofCpu h [.proc p] sie none) h w)
    (hstate : w.kernel.state p = .runnable) :
    (logic S).Guarantee h w (w.dispatch h p) ∧
      On (.ofCpu h [.proc p] sie (some p)) h (w.dispatch h p) := by
  have hsie := (on.masked (by simp [Local.ofCpu])).1
  have hlocked : (w.lock (.proc p)).locked = some h :=
    (on.held _).mpr (.inl (by simp [Local.ofCpu]))
  have hnone : (w.cpus h).proc = none := on.proc
  let v := w.setCpu h fun c => { c with proc := some p }
  have hself : v.cpus h = { w.cpus h with proc := some p } := Function.update_self ..
  have invᵥ : Inv S.img v := by
    refine inv.setCpuProc hsie on.ctx _ (fun r hr => ?_) fun r hr => ?_
    · cases hr
      exact ⟨hlocked, fun h' hne => inv.unclaimed (by rw [hstate]; nofun) hlocked hne⟩
    · rw [hnone] at hr
      cases hr
  have onᵥ : On (.ofCpu h [.proc p] sie (some p)) h v :=
    ⟨⟨on.ctx, on.held, on.cpu, on.nodup, on.half, by rw [hself]; rfl⟩,
      by rw [hself]; exact on.noff, on.unmasked, by rw [hself]; exact on.masked⟩
  have change := change_dispatch invᵥ onᵥ hstate
  have own := change.own onᵥ
  have inv' := change.inv invᵥ
  refine ⟨Own.guarantee ?_ inv inv', onᵥ.write _⟩
  have ownᵥ : Own S h w v := own_cpu _ (.inl on.ctx)
  exact ⟨rfl, fun h' hne => ownᵥ.cpus h' hne, fun _ _ => rfl, fun _ _ _ => .rfl,
    fun _ _ _ _ => rfl, .inl on.ctx, own.others, own.moves⟩

/-! ## swtch -/

/-- The process that was entered comes back not running, its lock held. -/
theorem wp_swtchToProc {Q : Unit → H → World H → Prop} (inv : Inv S.img w)
    (on : On (.ofCpu h [.proc p] sie (some p)) h w) (hstate : w.kernel.state p = .running)
    (hback : ∀ w' sie', Inv S.img w' → On (.ofCpu h [.proc p] sie' (some p)) h w' →
      w'.kernel.state p ≠ .running → Q () h w') :
    (logic S).wp (swtchToProc p) Q h w := by
  have hone : (Local.ofCpu h [.proc p] sie (some p) : Local H).locks.length +
      (Local.ofCpu h [.proc p] sie (some p) : Local H).depth ≠ 0 := by simp [Local.ofCpu]
  have hheld : Local.held (.ofCpu h [.proc p] sie (some p) : Local H) (.proc p) :=
    .inl (by simp [Local.ofCpu])
  have hF : Stable S (.ofCpu h [.proc p] sie (some p)) fun k => k.state p = .running :=
    stable_state hheld
  have masked := on.to_masked (F := fun k => k.state p = .running) hone hstate
  refine ((logic S).wp_bind ..).mpr (wp_masked_read hF inv masked fun w₁ inv₁ m₁ => ?_)
  refine ((logic S).wp_bind ..).mpr
    (wp_masked_choose hF inv₁ m₁ fun w₂ regs inv₂ m₂ => ?_)
  intro h' w₃ env inv₃
  obtain ⟨rfl, r, -⟩ := env_off inv₂ m₂.sie env
  have m₃ := m₂.rely hF r
  have on₃ : On (.ofCpu h' [.proc p] sie (some p)) h' w₃ := m₃.on rfl hone
  have hlocked : (w₃.lock (.proc p)).locked = some h' := (on₃.held _).mpr hheld
  let v := w₃.setCpu h' fun c => { c with context := regs }
  have hself : v.cpus h' = { w₃.cpus h' with context := regs } := Function.update_self ..
  have invᵥ : Inv S.img v := inv₃.setCpu m₃.sie _ rfl
  have hproc : (v.cpus h').proc = some p := by
    rw [hself]
    exact on₃.proc
  obtain ⟨hfree, inv₄⟩ := invᵥ.enter m₃.sie on₃.ctx hproc hlocked
  have hphase : w₃.kernel.phase p ≠ .armed := by
    intro harmed
    rcases inv₃.armed harmed with ⟨hsleep, -⟩ | ⟨h₁, hc, -⟩
    · rw [show w₃.kernel.state p = .running from m₃.data] at hsleep
      cases hsleep
    · exact hfree h₁ hc
  have on₄ : On (.ofProc p [.proc p] sie) h' (v.move h' (.proc p)) :=
    ⟨⟨by simp [World.move, Local.ofProc], on₃.held, on₃.cpu, on₃.nodup, on₃.half,
      hproc⟩, by change (v.cpus h').noff = _; rw [hself]; exact on₃.noff,
      on₃.unmasked, by change _ → _ ∧ (v.cpus h').intena = _; rw [hself]; exact on₃.masked⟩
  have own : Own S h' w₃ v := own_cpu _ (.inl on₃.ctx)
  refine ⟨own.switches inv₃ on₃.ctx hfree inv₄ ⟨p, on₃.handoff (.inr ⟨rfl, rfl⟩)⟩
    ⟨⟨sie, on₄⟩, m₃.data, hphase, inv₃.fresh hfree ?_⟩, ?_⟩
  · rw [show w₃.kernel.state p = .running from m₃.data]
    trivial
  rintro h₅ w₅ inv₅ ⟨p', sie', on₅, hstate₅⟩ keep hfresh
  have heq : h₅ = h' := (inv₅.cur_cpu on₅.ctx).symm
  subst heq
  have hsame : (w₅.cpus h₅).proc = some p := (keep.cpu h₅ rfl).trans hproc
  have hp' : p' = p := Option.some.inj (on₅.proc.symm.trans hsame)
  subst hp'
  exact hback w₅ sie' inv₅ on₅ hstate₅

/-! ## The interrupt enable bit -/

omit [DecidableEq H] in
theorem On.quiet (on : On l h w) (bare : l.Bare) : Quiet w h where
  unlocked lk hlk := bare.held lk ((on.held lk).mp hlk)
  noff := by
    rw [on.noff, bare.locks, bare.depth]
    rfl
  proc := by rw [on.proc, bare.proc, on.ctx]

theorem On.setSie (on : On l h w) (bare : l.Bare) (b : Bool) :
    On { l with sie := b } h (w.setSie h b) where
  toHolds := ⟨on.ctx, on.held, on.cpu, on.nodup, on.half, on.proc⟩
  noff := on.noff
  unmasked _ := by simp [World.setSie, World.setCsr]
  masked hne := absurd (by simp [bare.locks, bare.depth]) hne

theorem guarantee_setSie (inv : Inv S.img w) (on : On l h w) (bare : l.Bare) (b : Bool) :
    (logic S).Guarantee h w (w.setSie h b) :=
  (own_csr _).guarantee inv (inv.setCsr _ fun _ => on.quiet bare)

/-! ## scheduler -/

/-- One slot's part of the pass, from the claim on. -/
theorem wp_runProc {Q : Unit → H → World H → Prop} (inv : Inv S.img w)
    (on : On (.ofCpu h [.proc p] sie none) h w) (hstate : w.kernel.state p = .runnable)
    (hdone : ∀ w' sie', Inv S.img w' → On (.ofCpu h [] sie' none) h w' → Q () h w') :
    (logic S).wp (do
      act fun h w => ((), w.dispatch h p)
      swtchToProc p
      writeCpu fun c => { c with proc := none }
      Process.release (.proc p)) Q h w := by
  have hheld : Local.held (.ofCpu h [.proc p] sie none : Local H) (.proc p) :=
    .inl (by simp [Local.ofCpu])
  refine ((logic S).wp_bind ..).mpr fun h₁ w₁ env inv₁ => ?_
  obtain ⟨on₁, -, frame⟩ := env_on inv on env
  obtain rfl : h = h₁ := inv₁.cur_cpu on₁.ctx
  obtain ⟨guarantee, on₂⟩ :=
    guarantee_dispatch inv₁ on₁ ((frame.slot p hheld).state.trans hstate)
  refine ⟨guarantee, ((logic S).wp_bind ..).mpr ?_⟩
  have hrunning : (w₁.dispatch h p).kernel.state p = .running := by simp [World.dispatch]
  refine wp_swtchToProc guarantee.inv on₂ hrunning fun w₃ sie' inv₃ on₃ hleft => ?_
  refine ((logic S).wp_bind ..).mpr fun h₄ w₄ env₄ inv₄ => ?_
  obtain ⟨on₄, -, frame₄⟩ := env_on inv₃ on₃ env₄
  obtain rfl : h = h₄ := inv₄.cur_cpu on₄.ctx
  have hheld' : Local.held (.ofCpu h [.proc p] sie' (some p) : Local H) (.proc p) :=
    .inl (by simp [Local.ofCpu])
  have hleft' : w₄.kernel.state p ≠ .running := by
    rwa [(frame₄.slot p hheld').state]
  have hsie := (on₄.masked (by simp [Local.ofCpu])).1
  have hself : (w₄.setCpu h fun c => { c with proc := none }).cpus h =
      { w₄.cpus h with proc := none } := Function.update_self ..
  have inv₅ : Inv S.img (w₄.setCpu h fun c => { c with proc := none }) := by
    refine inv₄.setCpuProc hsie on₄.ctx _ nofun fun r hr => .inl ?_
    obtain rfl : p = r := Option.some.inj (on₄.proc.symm.trans hr)
    exact hleft'
  refine ⟨(own_cpu _ (.inl on₄.ctx)).guarantee inv₄ inv₅, ?_⟩
  have on₅ : On (.ofCpu h [.proc p] sie' none) h
      (w₄.setCpu h fun c => { c with proc := none }) :=
    ⟨⟨on₄.ctx, on₄.held, on₄.cpu, on₄.nodup, on₄.half, by rw [hself]; rfl⟩,
      by rw [hself]; exact on₄.noff, on₄.unmasked, by rw [hself]; exact on₄.masked⟩
  have release : Triple S ((Local.ofCpu h [] sie' none).one (.proc p)) (fun _ => True)
      (Process.release (.proc p)) (fun _ => .ofCpu h [] sie' none) fun _ _ => True :=
    .releaseSlot (Local.bare_ofCpu h sie') .const .const (fun _ => id)
      fun _ _ hc => by cases hc
  refine release.wp inv₅ on₅ trivial fun _ h₆ w₆ inv₆ on₆ _ => ?_
  obtain rfl : h = h₆ := inv₆.cur_cpu on₆.ctx
  exact hdone w₆ sie' inv₆ on₆

/-- A pass that ran no process leaves `SIE` as it found it. -/
theorem schedScan_spec (ps : List Slot) (found : Bool) (inv : Inv S.img w)
    (on : On (.ofCpu h [] sie none) h w) :
    (logic S).wp (schedScan ps found) (fun found' h' w' => h' = h ∧
      ∃ sie', On (.ofCpu h [] sie' none) h w' ∧ (found' = false → found = false ∧ sie' = sie))
      h w := by
  induction ps generalizing w found sie with
  | nil => exact ⟨rfl, sie, on, fun hfound => ⟨hfound, rfl⟩⟩
  | cons p ps ih =>
    have bare := Local.bare_ofCpu h sie
    have hheld := (Local.ofCpu h [] sie none).held_one (.proc p)
    refine ((logic S).wp_bind ..).mpr ((Triple.acquireOne bare (F := fun _ => True)
      .const).wp inv on trivial fun _ h₁ w₁ inv₁ on₁ _ => ?_)
    obtain rfl : h = h₁ := inv₁.cur_cpu on₁.ctx
    have read : Triple S ((Local.ofCpu h [] sie none).one (.proc p)) (fun _ => True)
        (Process.readProc p (·.state)) (fun _ => (Local.ofCpu h [] sie none).one (.proc p))
        fun s k => k.state p = s := .readProc .const fun _ _ _ _ _ => rfl
    refine ((logic S).wp_bind ..).mpr (read.wp inv₁ on₁ trivial
      fun s h₂ w₂ inv₂ on₂ hs => ?_)
    obtain rfl : h = h₂ := inv₂.cur_cpu on₂.ctx
    split
    · next hrunnable =>
      subst hrunnable
      have whole := wp_runProc inv₂ on₂ hs (Q := fun _ => (logic S).wp (schedScan ps true)
        (fun found' h' w' => h' = h ∧ ∃ sie', On (.ofCpu h [] sie' none) h w' ∧
          (found' = false → found = false ∧ sie' = sie)))
        fun w₃ sie' inv₃ on₃ => by
          refine Logic.wp_mono inv₃ (fun found' h' w' _ hscan => ?_) (ih true inv₃ on₃)
          obtain ⟨rfl, sie'', on', hfound⟩ := hscan
          exact ⟨rfl, sie'', on', fun hfalse => absurd (hfound hfalse).1 (by simp)⟩
      have run := ((logic S).wp_bind ..).mpr whole
      simp only [bind_assoc] at run
      exact run
    · have release : Triple S ((Local.ofCpu h [] sie none).one (.proc p)) (fun _ => True)
          (Process.release (.proc p)) (fun _ => .ofCpu h [] sie none) fun _ _ => True :=
        .releaseSlot bare .const .const (fun _ => id) fun _ _ hc => by cases hc
      refine ((logic S).wp_bind ..).mpr (release.wp inv₂ on₂ trivial
        fun _ h₃ w₃ inv₃ on₃ _ => ?_)
      obtain rfl : h = h₃ := inv₃.cur_cpu on₃.ctx
      exact ih _ inv₃ on₃

theorem wp_scheduling {Q : Empty → H → World H → Prop} (inv : Inv S.img w)
    (on : On (.ofCpu h [] sie none) h w) :
    (logic S).wp (Program.perform .scheduling) Q h w := by
  intro h₁ w₁ env inv₁
  obtain ⟨on₁, -, -⟩ := env_on inv on env
  exact ⟨⟨_, on₁, h, sie, rfl⟩, fun never => never.elim⟩

theorem wp_wfi {Q : Unit → H → World H → Prop} (inv : Inv S.img w)
    (on : On (.ofCpu h [] false none) h w)
    (hdone : ∀ w', Inv S.img w' → On (.ofCpu h [] false none) h w' → Q () h w') :
    (logic S).wp (Program.perform .wfi) Q h w := by
  intro h₁ w₁ env inv₁
  obtain ⟨on₁, -, -⟩ := env_on inv on env
  refine ⟨⟨_, on₁, h, rfl⟩, fun _ h₂ w₂ inv₂ hpost => ?_⟩
  obtain ⟨on₂, -⟩ := hpost _ on₁ ⟨h, rfl⟩
  obtain rfl : h = h₂ := inv₂.cur_cpu on₂.ctx
  exact hdone w₂ inv₂ on₂

theorem schedulingBody_spec {Q : Empty → H → World H → Prop} (inv : Inv S.img w)
    (on : On (.ofCpu h [] sie none) h w) :
    (logic S).wp schedulingBody Q h w := by
  refine ((logic S).wp_bind ..).mpr fun h₁ w₁ env inv₁ => ?_
  obtain ⟨on₁, -, -⟩ := env_on inv on env
  obtain rfl : h = h₁ := inv₁.cur_cpu on₁.ctx
  have enabled := guarantee_setSie inv₁ on₁ (Local.bare_ofCpu h sie) true
  refine ⟨enabled, ((logic S).wp_bind ..).mpr fun h₂ w₂ env₂ inv₂ => ?_⟩
  obtain ⟨on₂, -, -⟩ := env_on enabled.inv (on₁.setSie (Local.bare_ofCpu h sie) true) env₂
  obtain rfl : h = h₂ := inv₂.cur_cpu on₂.ctx
  have disabled := guarantee_setSie inv₂ on₂ (Local.bare_ofCpu h true) false
  refine ⟨disabled, ((logic S).wp_bind ..).mpr ?_⟩
  have scan := schedScan_spec slots false disabled.inv
    (on₂.setSie (Local.bare_ofCpu h true) false)
  refine Logic.wp_mono disabled.inv (fun found h₃ w₃ inv₃ hscan => ?_) scan
  obtain ⟨rfl, sie', on₃, hfound⟩ := hscan
  cases found with
  | true => exact wp_scheduling inv₃ on₃
  | false =>
    obtain ⟨-, rfl⟩ := hfound rfl
    refine ((logic S).wp_bind ..).mpr (wp_wfi inv₃ on₃ fun w₄ inv₄ on₄ => ?_)
    exact wp_scheduling inv₄ on₄

theorem scheduler_spec {Q : Empty → H → World H → Prop} (inv : Inv S.img w)
    (on : On (.ofCpu h [] sie none) h w) : (logic S).wp scheduler Q h w := by
  refine ((logic S).wp_bind ..).mpr fun h₁ w₁ env inv₁ => ?_
  obtain ⟨on₁, -, -⟩ := env_on inv on env
  obtain rfl : h = h₁ := inv₁.cur_cpu on₁.ctx
  have hsame : w₁.setCpu h (fun c => { c with proc := none }) = w₁ := by
    refine World.setCpu_same ?_
    have hnone : (w₁.cpus h).proc = none := on₁.proc
    rw [← hnone]
  have guarantee : (logic S).Guarantee h w₁ (w₁.setCpu h fun c => { c with proc := none }) := by
    rw [hsame]
    exact guarantee_refl inv₁
  have on₂ : On (.ofCpu h [] sie none) h (w₁.setCpu h fun c => { c with proc := none }) := by
    rwa [hsame]
  exact ⟨guarantee, wp_scheduling guarantee.inv on₂⟩

end Xv6Kernel.Process
