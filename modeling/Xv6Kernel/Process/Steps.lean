import Xv6Kernel.Process.Contract

/-!
# What one access of a hart preserves

For each kind of access (registers, a lock word, data) the invariant and what the
other harts rely on, and what the environment may do between two accesses.
-/

namespace Xv6Kernel.Process

open Xv6Kernel.Foundation Xv6Kernel.Mm

variable {H : Type} {S : Setting H}

/-! ## Between two accesses -/

theorem Rely.refl (h : H) (w : World H) : Rely S h w w where
  cur := rfl
  cpus := rfl
  csr := rfl
  locked _ := Iff.rfl
  lockCpu _ _ := rfl
  frame := .refl

theorem Rely.trans {h : H} {w w' w'' : World H} (r : Rely S h w w')
    (r' : Rely S h w' w'') : Rely S h w w'' where
  cur := r'.cur.trans r.cur
  cpus := r'.cpus.trans r.cpus
  csr := r'.csr.trans r.csr
  locked lk := (r'.locked lk).trans (r.locked lk)
  lockCpu lk hlk := (r'.lockCpu lk ((r.locked lk).mpr hlk)).trans (r.lockCpu lk hlk)
  frame := by
    refine r.frame.trans ?_
    have hframe := r'.frame
    rw [r.cur] at hframe
    exact hframe.weaken id fun lk hlk => (r.locked lk).mpr hlk

theorem Holds.rely {l : Local H} {h : H} {w w' : World H} (holds : Holds l h w)
    (r : Rely S h w w') : Holds l h w' where
  ctx := r.cur.trans holds.ctx
  held lk := (r.locked lk).trans (holds.held lk)
  cpu lk hlk :=
    (r.lockCpu lk ((holds.held lk).mpr (.inl hlk))).trans (holds.cpu lk hlk)
  nodup := holds.nodup
  half lk hlk :=
    ⟨(holds.half lk hlk).1,
      (r.lockCpu lk ((holds.held lk).mpr (.inr hlk))).trans (holds.half lk hlk).2⟩
  proc := by rw [r.cpus, holds.proc]

theorem On.rely {l : Local H} {h : H} {w w' : World H} (on : On l h w)
    (r : Rely S h w w') : On l h w' where
  toHolds := on.toHolds.rely r
  noff := by rw [r.cpus, on.noff]
  unmasked hzero := by rw [r.csr, on.unmasked hzero]
  masked hne := by rw [r.csr, r.cpus]; exact on.masked hne

theorem Holds.frame_of_rely {l : Local H} {h : H} {w w' : World H}
    (holds : Holds l h w) (r : Rely S h w w') :
    Frame S True l.ctx l.held w.kernel w'.kernel := by
  have hframe := r.frame
  rw [holds.ctx] at hframe
  exact hframe.weaken id fun lk hlk => (holds.held lk).mpr hlk

/-- A hart whose `SIE` is set is at depth 0 with its process in `mycpu()->proc`. -/
theorem On.of_quiet {l : Local H} {h : H} {w : World H} (on : On l h w)
    (quiet : Quiet w h) (hsie : (w.csr h).sstatus.sie = true) :
    l.locks = [] ∧ l.half = none ∧ l.depth = 0 ∧ l.sie = true ∧
      l.proc = l.ctx.slot := by
  have hlocks : l.locks = [] := by
    rw [List.eq_nil_iff_forall_not_mem]
    exact fun lk hlk => quiet.unlocked lk ((on.held lk).mpr (.inl hlk))
  have hhalf : l.half = none := by
    cases hl : l.half with
    | none => rfl
    | some lk => exact absurd ((on.held lk).mpr (.inr hl)) (quiet.unlocked lk)
  have hdepth : l.depth = 0 := by
    have hnoff := on.noff
    rw [quiet.noff, hlocks] at hnoff
    simpa using hnoff.symm
  refine ⟨hlocks, hhalf, hdepth, ?_, ?_⟩
  · rw [← on.unmasked (by simp [hlocks, hdepth]), hsie]
  · rw [← on.proc, quiet.proc, on.ctx]

theorem On.to_quiet {l : Local H} {h : H} {w : World H} (hlocks : l.locks = [])
    (hhalf : l.half = none) (hdepth : l.depth = 0) (hsie : l.sie = true)
    (hproc : l.proc = l.ctx.slot) (hcur : w.cur h = l.ctx) (quiet : Quiet w h)
    (hset : (w.csr h).sstatus.sie = true) : On l h w where
  ctx := hcur
  held lk := iff_of_false (quiet.unlocked lk) (by simp [Local.held, hlocks, hhalf])
  cpu := by simp [hlocks]
  nodup := by simp [hlocks]
  half := by simp [hhalf]
  noff := by simp [quiet.noff, hlocks, hdepth]
  unmasked _ := by rw [hset, hsie]
  masked hne := by simp [hlocks, hdepth] at hne
  proc := by rw [quiet.proc, hproc, hcur]

section Env

variable [DecidableEq H]

/-- Whatever happens between two accesses, the program finds its hart as it left
it, possibly another one, and the data as its locks keep it. -/
theorem env_on {l : Local H} {h h' : H} {w w' : World H} (inv : Inv S.img w)
    (on : On l h w) (env : (logic S).Env h w h' w') :
    On l h' w' ∧ Inv S.img w' ∧ Frame S False l.ctx l.held w.kernel w'.kernel := by
  induction env with
  | refl => exact ⟨on, inv, .refl⟩
  | rely _ others inv' ih =>
      obtain ⟨on₁, -, frame₁⟩ := ih
      refine ⟨on₁.rely others, inv', frame₁.trans ?_⟩
      exact (on₁.toHolds.frame_of_rely others).weaken False.elim fun _ => id
  | @preempt h₁ h₂ w₁ w₂ wt _ trap handled inv' ih =>
      obtain ⟨on₁, inv₁, frame₁⟩ := ih
      obtain ⟨hsie, -⟩ := trap
      obtain ⟨hlocks, hhalf, hdepth, hl, hproc⟩ := on₁.of_quiet (inv₁.quiet _ hsie) hsie
      refine ⟨.to_quiet hlocks hhalf hdepth hl hproc (handled.ctx.trans on₁.ctx)
        handled.quiet handled.sie, inv', frame₁.trans ?_⟩
      have hframe := handled.frame
      rw [on₁.ctx] at hframe
      exact hframe.weaken id fun lk hlk => by
        simp [Local.held, hlocks, hhalf] at hlk

/-- With `SIE` clear only the other harts do anything. -/
theorem env_off {h h' : H} {w w' : World H} (inv : Inv S.img w)
    (hsie : (w.csr h).sstatus.sie = false) (env : (logic S).Env h w h' w') :
    h' = h ∧ Rely S h w w' ∧ Inv S.img w' := by
  induction env with
  | refl => exact ⟨rfl, .refl h w, inv⟩
  | rely _ others inv' ih =>
      obtain ⟨rfl, r, -⟩ := ih
      exact ⟨rfl, r.trans others, inv'⟩
  | preempt _ trap _ _ ih =>
      obtain ⟨rfl, r, -⟩ := ih
      have hon := trap.1
      rw [r.csr, hsie] at hon
      cases hon

end Env

/-! ## What a hart may change -/

structure Own (S : Setting H) (h : H) (w w' : World H) : Prop where
  cur : w'.cur = w.cur
  cpus : ∀ h', h' ≠ h → w'.cpus h' = w.cpus h'
  csr : ∀ h', h' ≠ h → w'.csr h' = w.csr h'
  locked : ∀ lk h', h' ≠ h →
    ((w'.lock lk).locked = some h' ↔ (w.lock lk).locked = some h')
  lockCpu : ∀ lk h', h' ≠ h → (w.lock lk).locked = some h' →
    (w'.lock lk).cpu = (w.lock lk).cpu
  proc : w.cur h = .cpu h ∨ (w'.cpus h).proc = (w.cpus h).proc
  others : Others S (w.cur h) (fun lk => (w.lock lk).locked = some h) w.kernel
    w'.kernel
  moves : ∀ p, StateMove (w.cur h) p w.kernel (w.kernel.state p) (w'.kernel.state p)

theorem Inv.cur_ne {img : Image} {w : World H} (inv : Inv img w) {h h' : H}
    (hne : h' ≠ h) : w.cur h' ≠ w.cur h := by
  intro heq
  cases hc : w.cur h with
  | proc p => exact hne (inv.cur_inj (heq.trans hc) hc)
  | cpu h₀ => exact hne ((inv.cur_cpu (heq.trans hc)).symm.trans (inv.cur_cpu hc))

theorem Own.rely {h : H} {w w' : World H} (own : Own S h w w') (inv : Inv S.img w)
    {h' : H} (hne : h' ≠ h) : Rely S h' w w' where
  cur := by rw [own.cur]
  cpus := own.cpus h' hne
  csr := own.csr h' hne
  locked lk := own.locked lk h' hne
  lockCpu lk := own.lockCpu lk h' hne
  frame := own.others.frame (inv.cur_ne hne) fun lk hlk hlk' =>
    hne (Option.some.inj (hlk.symm.trans hlk'))

theorem Own.keep {h : H} {w w' : World H} (own : Own S h w w') {c : Ctx H}
    (hc : ∀ h', w.cur h' ≠ c) : Keep S c w w' where
  own := own.others.own c fun heq => hc h heq.symm
  reborn p hp := own.others.reborn p fun heq => hc h (heq.trans hp.symm)
  forever := own.others.forever
  cpu := by
    rintro h₀ rfl
    by_cases heq : h₀ = h
    · subst heq
      exact own.proc.resolve_left (hc h₀)
    · rw [own.cpus h₀ heq]

section Guarantee

variable [DecidableEq H]

theorem Own.guarantee {h : H} {w w' : World H} (own : Own S h w w')
    (inv : Inv S.img w) (inv' : Inv S.img w') : (logic S).Guarantee h w w' where
  inv := inv'
  allowed := own.moves
  current := own.cur
  rely _ hne := own.rely inv hne
  keep _ hc := own.keep hc

end Guarantee

/-! ## Accesses to registers -/

section Registers

variable [DecidableEq H] {h : H} {w : World H}

theorem own_cpu (f : Cpu → Cpu)
    (hproc : w.cur h = .cpu h ∨ (f (w.cpus h)).proc = (w.cpus h).proc) :
    Own S h w (w.setCpu h f) where
  cur := rfl
  cpus _ hne := Function.update_of_ne hne _ _
  csr _ _ := rfl
  locked _ _ _ := Iff.rfl
  lockCpu _ _ _ _ := rfl
  proc := by simpa [World.setCpu] using hproc
  others := .refl
  moves _ := .still _

theorem own_csr (f : Csr → Csr) : Own S h w (w.setCsr h f) where
  cur := rfl
  cpus _ _ := rfl
  csr _ hne := Function.update_of_ne hne _ _
  locked _ _ _ := Iff.rfl
  lockCpu _ _ _ _ := rfl
  proc := .inr rfl
  others := .refl
  moves _ := .still _

theorem setCpu_proc (f : Cpu → Cpu) (hproc : (f (w.cpus h)).proc = (w.cpus h).proc)
    (h' : H) : ((w.setCpu h f).cpus h').proc = (w.cpus h').proc := by
  by_cases heq : h' = h
  · subst heq
    simpa [World.setCpu] using hproc
  · simp [World.setCpu, heq]

theorem Inv.setCpu {img : Image} (inv : Inv img w)
    (hsie : (w.csr h).sstatus.sie = false) (f : Cpu → Cpu)
    (hproc : (f (w.cpus h)).proc = (w.cpus h).proc) :
    Inv img (w.setCpu h f) where
  quiet h' hon := by
    have hne : h' ≠ h := by
      rintro rfl
      rw [show ((w.setCpu h' f).csr h') = w.csr h' from rfl, hsie] at hon
      cases hon
    have hquiet := inv.quiet h' hon
    have hcpu : (w.setCpu h f).cpus h' = w.cpus h' := Function.update_of_ne hne _ _
    exact ⟨hquiet.unlocked, by rw [hcpu, hquiet.noff], by rw [hcpu, hquiet.proc]; rfl⟩
  lock_cpu := inv.lock_cpu
  cur_cpu := inv.cur_cpu
  cur_inj := inv.cur_inj
  cur_state := inv.cur_state
  proc_cur hcur := (setCpu_proc f hproc _).trans (inv.proc_cur hcur)
  proc_held hp := inv.proc_held ((setCpu_proc f hproc _).symm.trans hp)
  proc_inj hp hp' := inv.proc_inj ((setCpu_proc f hproc _).symm.trans hp)
    ((setCpu_proc f hproc _).symm.trans hp')
  claimed hrun := by
    obtain ⟨h', hp⟩ := inv.claimed hrun
    exact ⟨h', (setCpu_proc f hproc _).trans hp⟩
  calm := inv.calm
  armed := inv.armed
  fresh := inv.fresh
  data := inv.data

theorem Inv.setCsr {img : Image} (inv : Inv img w) (f : Csr → Csr)
    (hquiet : (f (w.csr h)).sstatus.sie = true → Quiet w h) :
    Inv img (w.setCsr h f) where
  quiet h' hon := by
    by_cases heq : h' = h
    · subst heq
      have hon' : (f (w.csr h')).sstatus.sie = true := by
        simpa [World.setCsr] using hon
      exact ⟨(hquiet hon').unlocked, (hquiet hon').noff, (hquiet hon').proc⟩
    · have hcsr : (w.setCsr h f).csr h' = w.csr h' := Function.update_of_ne heq _ _
      rw [hcsr] at hon
      exact ⟨(inv.quiet h' hon).unlocked, (inv.quiet h' hon).noff,
        (inv.quiet h' hon).proc⟩
  lock_cpu := inv.lock_cpu
  cur_cpu := inv.cur_cpu
  cur_inj := inv.cur_inj
  cur_state := inv.cur_state
  proc_cur := inv.proc_cur
  proc_held := inv.proc_held
  proc_inj := inv.proc_inj
  claimed := inv.claimed
  calm := inv.calm
  armed := inv.armed
  fresh := inv.fresh
  data := inv.data

end Registers

/-! ## Accesses to lock words -/

section LockWords

variable {h : H} {w : World H} {lk : Lock}

@[simp] theorem setLock_self (w : World H) (lk : Lock)
    (f : SpinLock H → SpinLock H) : (w.setLock lk f).lock lk = f (w.lock lk) :=
  Function.update_self ..

theorem setLock_of_ne (w : World H) {lk lk' : Lock} (f : SpinLock H → SpinLock H)
    (hne : lk' ≠ lk) : (w.setLock lk f).lock lk' = w.lock lk' :=
  Function.update_of_ne hne _ _

/-- A hart may write a lock word that no other hart holds, unless it takes the
lock for another hart. -/
theorem own_lock (f : SpinLock H → SpinLock H)
    (hfree : ∀ h', h' ≠ h → (w.lock lk).locked ≠ some h')
    (hmine : ∀ h', h' ≠ h → (f (w.lock lk)).locked ≠ some h') :
    Own S h w (w.setLock lk f) where
  cur := rfl
  cpus _ _ := rfl
  csr _ _ := rfl
  locked lk' h' hne := by
    by_cases heq : lk' = lk
    · subst heq
      rw [setLock_self]
      exact iff_of_false (hmine h' hne) (hfree h' hne)
    · rw [setLock_of_ne w f heq]
  lockCpu lk' h' hne hlocked := by
    rw [setLock_of_ne w f]
    rintro rfl
    exact hfree h' hne hlocked
  proc := .inr rfl
  others := .refl
  moves _ := .still _

theorem not_other {h₀ : H} (hlocked : (w.lock lk).locked = some h₀) {h' : H}
    (hne : h' ≠ h₀) : (w.lock lk).locked ≠ some h' :=
  fun heq => hne (Option.some.inj (heq.symm.trans hlocked))

theorem Inv.take {img : Image} (inv : Inv img w)
    (hsie : (w.csr h).sstatus.sie = false) (hfree : (w.lock lk).locked = none) :
    Inv img (w.setLock lk fun l => { l with locked := some h }) := by
  have hkeep : ∀ {lk' h'}, (w.lock lk').locked = some h' →
      ((w.setLock lk fun l => { l with locked := some h }).lock lk').locked =
        some h' := by
    intro lk' h' hlocked
    rw [setLock_of_ne w _ fun heq => by rw [heq, hfree] at hlocked; cases hlocked]
    exact hlocked
  refine ⟨fun h' hon => ?_, fun {lk' h'} hcpu => ?_, inv.cur_cpu, inv.cur_inj,
    fun hcur => (inv.cur_state hcur).imp id hkeep, inv.proc_cur,
    fun hp => (inv.proc_held hp).imp id hkeep, inv.proc_inj, inv.claimed, fun hwait => inv.calm ?_,
    fun {p} hphase => ?_, inv.fresh, inv.data⟩
  · have hquiet := inv.quiet h' hon
    have hne : h' ≠ h := by
      rintro rfl
      rw [show ((w.setLock lk _).csr h') = w.csr h' from rfl, hsie] at hon
      cases hon
    refine ⟨fun lk' => ?_, hquiet.noff, hquiet.proc⟩
    by_cases heq : lk' = lk
    · subst heq
      rw [setLock_self]
      exact fun hsome => hne (Option.some.inj hsome).symm
    · rw [setLock_of_ne w _ heq]
      exact hquiet.unlocked lk'
  · by_cases heq : lk' = lk
    · subst heq
      rw [setLock_self] at hcpu
      have hlocked := inv.lock_cpu hcpu
      rw [hfree] at hlocked
      cases hlocked
    · rw [setLock_of_ne w _ heq] at hcpu ⊢
      exact inv.lock_cpu hcpu
  · by_cases heq : Lock.wait = lk
    · subst heq
      exact hfree
    · rwa [setLock_of_ne w _ heq] at hwait
  · exact (inv.armed hphase).imp id fun ⟨h', hcur, hlocked⟩ =>
      ⟨h', hcur, hlocked.imp hkeep hkeep⟩

theorem Inv.setLockCpu {img : Image} (inv : Inv img w)
    (hlocked : (w.lock lk).locked = some h) {cpu : Option H}
    (hcpu : cpu = none ∨ cpu = some h) :
    Inv img (w.setLock lk fun l => { l with cpu }) := by
  have hsame : ∀ lk', ((w.setLock lk fun l => { l with cpu }).lock lk').locked =
      (w.lock lk').locked := by
    intro lk'
    by_cases heq : lk' = lk
    · subst heq
      rw [setLock_self]
    · rw [setLock_of_ne w _ heq]
  refine ⟨fun h' hon => ?_, fun {lk' h'} hlk => ?_, inv.cur_cpu, inv.cur_inj,
    fun hcur => ?_, inv.proc_cur, fun hp => ?_, inv.proc_inj,
    inv.claimed, fun hwait => inv.calm ((hsame _).symm.trans hwait), fun {p} hphase => ?_, inv.fresh, inv.data⟩
  · have hquiet := inv.quiet h' hon
    exact ⟨fun lk' => by rw [hsame]; exact hquiet.unlocked lk', hquiet.noff,
      hquiet.proc⟩
  · rw [hsame]
    by_cases heq : lk' = lk
    · subst heq
      rw [setLock_self] at hlk
      rcases hcpu with rfl | rfl
      · cases hlk
      · rw [hlocked]
        exact hlk
    · rw [setLock_of_ne w _ heq] at hlk
      exact inv.lock_cpu hlk
  · rw [hsame]
    exact inv.cur_state hcur
  · rw [hsame]
    exact inv.proc_held hp
  · refine (inv.armed hphase).imp id fun ⟨h', hcur, hlk⟩ => ⟨h', hcur, ?_⟩
    rwa [hsame, hsame]

theorem Inv.drop {img : Image} (inv : Inv img w) {l : Local H} (on : On l h w)
    (hlocked : (w.lock lk).locked = some h) (hcpu : (w.lock lk).cpu = none)
    (hproc : l.proc = l.ctx.slot) (hrel : Releasable l lk w.kernel) :
    Inv img (w.setLock lk fun l => { l with locked := none }) := by
  have hother : ∀ {lk'}, lk' ≠ lk →
      (w.setLock lk fun l => { l with locked := none }).lock lk' = w.lock lk' :=
    fun hne => setLock_of_ne w _ hne
  have hkeep : ∀ {lk' h'}, h' ≠ h → (w.lock lk').locked = some h' →
      ((w.setLock lk fun l => { l with locked := none }).lock lk').locked =
        some h' := by
    intro lk' h' hne hlk
    rw [hother fun heq => not_other hlocked hne (heq ▸ hlk)]
    exact hlk
  refine ⟨fun h' hon => ?_, fun {lk' h'} hlk => ?_, inv.cur_cpu, inv.cur_inj,
    fun {h' p} hcur => ?_, inv.proc_cur, fun {h' p} hp => ?_, inv.proc_inj,
    inv.claimed, fun hwait => ?_, fun {p} hphase => ?_, inv.fresh, inv.data⟩
  · have hquiet := inv.quiet h' hon
    refine ⟨fun lk' => ?_, hquiet.noff, hquiet.proc⟩
    by_cases heq : lk' = lk
    · subst heq
      rw [setLock_self]
      exact nofun
    · rw [hother heq]
      exact hquiet.unlocked lk'
  · by_cases heq : lk' = lk
    · subst heq
      rw [setLock_self] at hlk
      have hsome : (w.lock lk').cpu = some h' := hlk
      rw [hcpu] at hsome
      cases hsome
    · rw [hother heq] at hlk ⊢
      exact inv.lock_cpu hlk
  · rcases inv.cur_state hcur with hrun | hlk
    · exact .inl hrun
    · by_cases hne : h' = h
      · subst hne
        have hctx : l.ctx = .proc p := on.ctx.symm.trans hcur
        by_cases heq : lk = .proc p
        · exact .inl (hrel.running p hctx heq)
        · rw [hother fun h => heq h.symm]
          exact .inr hlk
      · exact .inr (hkeep hne hlk)
  · refine (inv.proc_held hp).elim .inl fun hlk => ?_
    by_cases hne : h' = h
    · subst hne
      have hslot : l.ctx.slot = some p := hproc.symm.trans (on.proc.symm.trans hp)
      cases hctx : l.ctx with
      | proc q =>
          rw [hctx] at hslot
          cases hslot
          exact .inl (on.ctx.trans hctx)
      | cpu h₀ =>
          rw [hctx] at hslot
          cases hslot
    · exact .inr (hkeep hne hlk)
  · by_cases heq : Lock.wait = lk
    · exact hrel.calm heq.symm
    · rw [hother heq] at hwait
      exact inv.calm hwait
  · rcases inv.armed hphase with hsleep | ⟨h', hcur, hlk⟩
    · exact .inl hsleep
    · refine .inr ⟨h', hcur, ?_⟩
      by_cases hne : h' = h
      · subst hne
        have hctx : l.ctx = .proc p := on.ctx.symm.trans hcur
        refine (hrel.armed p hctx hphase).imp ?_ ?_ <;>
          · rintro ⟨hheld, hother'⟩
            rw [hother hother'.symm]
            exact (on.held _).mpr hheld
      · exact hlk.imp (hkeep hne) (hkeep hne)

end LockWords

/-! ## Writes to data -/

/-- What a write of the hart described by `l` has to preserve. -/
structure Change (S : Setting H) (l : Local H) (w : World H) (k' : Kernel) : Prop where
  cur_state : ∀ {h p}, w.cur h = .proc p →
    k'.state p = .running ∨ (w.lock (.proc p)).locked = some h
  claimed : ∀ {p}, k'.state p = .running → ∃ h, (w.cpus h).proc = some p
  calm : (w.lock .wait).locked = none → Calm k'.state k'.parent k'.phase
  armed : ∀ {p}, k'.phase p = .armed → GoesToSleep { w with kernel := k' } p
  fresh : ∀ {p}, (∀ h, w.cur h ≠ .proc p) → (k'.state p).Alive → NotMoved S.img p k'
  data : Data S.img k'
  others : Others S l.ctx l.held w.kernel k'
  moves : ∀ p, StateMove l.ctx p w.kernel (w.kernel.state p) (k'.state p)

namespace Change

variable {l : Local H} {h : H} {w : World H} {k' : Kernel}

theorem inv (change : Change S l w k') (inv : Inv S.img w) :
    Inv S.img { w with kernel := k' } where
  quiet h' hon := ⟨(inv.quiet h' hon).unlocked, (inv.quiet h' hon).noff,
    (inv.quiet h' hon).proc⟩
  lock_cpu := inv.lock_cpu
  cur_cpu := inv.cur_cpu
  cur_inj := inv.cur_inj
  cur_state := change.cur_state
  proc_cur := inv.proc_cur
  proc_held := inv.proc_held
  proc_inj := inv.proc_inj
  claimed := change.claimed
  calm := change.calm
  armed := change.armed
  fresh := change.fresh
  data := change.data

theorem own (change : Change S l w k') (on : On l h w) :
    Own S h w { w with kernel := k' } where
  cur := rfl
  cpus _ _ := rfl
  csr _ _ := rfl
  locked _ _ _ := Iff.rfl
  lockCpu _ _ _ _ := rfl
  proc := .inr rfl
  others := by
    rw [on.ctx, show (fun lk => (w.lock lk).locked = some h) = l.held from
      funext fun lk => propext (on.held lk)]
    exact change.others
  moves := by
    rw [on.ctx]
    exact change.moves

end Change

theorem On.write {l : Local H} {h : H} {w : World H} (on : On l h w) (k' : Kernel) :
    On l h { w with kernel := k' } :=
  ⟨⟨on.ctx, on.held, on.cpu, on.nodup, on.half, on.proc⟩, on.noff, on.unmasked,
    on.masked⟩

end Xv6Kernel.Process
