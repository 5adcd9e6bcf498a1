import Xv6Kernel.Process.Rules

/-!
# Spinlocks

`push_off`, `pop_off`, `acquire`, `release` and `myproc` meet their contracts on
any number of harts, with interrupts arriving whenever `SIE` is set.
-/

namespace Xv6Kernel.Process

open Xv6Kernel.Foundation Xv6Kernel.Mm

variable {H : Type} {S : Setting H} {α β : Type} {l : Local H} {n : Int} {e : Bool}
  {F : Kernel → Prop} {h : H} {w w' : World H} {lk : Lock}

/-! ## Interrupts off -/

/-- The hart has `SIE` clear, so that it runs on with no trap in between. -/
structure Masked (l : Local H) (n : Int) (intena : Bool) (F : Kernel → Prop) (h : H)
    (w : World H) : Prop where
  holds : Holds l h w
  sie : (w.csr h).sstatus.sie = false
  noff : (w.cpus h).noff = n
  intena : (w.cpus h).intena = intena
  data : F w.kernel

/-- The hart one `push_off` deeper. -/
def Local.pushed (l : Local H) : Local H := { l with depth := l.depth + 1 }

theorem Holds.depth (holds : Holds l h w) (d : Nat) : Holds { l with depth := d } h w :=
  ⟨holds.ctx, holds.held, holds.cpu, holds.nodup, holds.half, holds.proc⟩

theorem On.to_masked (on : On l h w) (hne : l.locks.length + l.depth ≠ 0)
    (hF : F w.kernel) : Masked l (l.locks.length + l.depth) l.sie F h w :=
  ⟨on.toHolds, (on.masked hne).1, on.noff, (on.masked hne).2, hF⟩

theorem Masked.on (masked : Masked l n l.sie F h w)
    (hn : n = l.locks.length + l.depth) (hne : l.locks.length + l.depth ≠ 0) :
    On l h w where
  toHolds := masked.holds
  noff := masked.noff.trans hn
  unmasked hzero := absurd hzero hne
  masked _ := ⟨masked.sie, masked.intena⟩

theorem Masked.rely (masked : Masked l n e F h w) (hF : Stable S l F)
    (r : Rely S h w w') : Masked l n e F h w' where
  holds := masked.holds.rely r
  sie := by rw [r.csr, masked.sie]
  noff := by rw [r.cpus, masked.noff]
  intena := by rw [r.cpus, masked.intena]
  data := hF _ _ ((masked.holds.frame_of_rely r).weaken False.elim fun _ => id)
    masked.data

theorem Masked.quiet (masked : Masked l 0 e F h w) (hlocks : l.locks = [])
    (hhalf : l.half = none) (hproc : l.proc = l.ctx.slot) : Quiet w h where
  unlocked lk := by simp [masked.holds.held, Local.held, hlocks, hhalf]
  noff := masked.noff
  proc := by rw [masked.holds.proc, hproc, masked.holds.ctx]

/-! ## The lock words -/

/-- Nobody but the hart itself can have taken its own process's lock. -/
theorem On.acquired (on : On l h w) (inv : Inv S.img w)
    (hfree : (w.lock lk).locked = none) : Acquired l lk w.kernel where
  calm := by
    rintro rfl
    exact inv.calm hfree
  running := by
    rintro p hctx rfl
    refine (inv.cur_state (on.ctx.trans hctx)).resolve_right fun hlocked => ?_
    rw [hfree] at hlocked
    cases hlocked

theorem On.taken (on : On l h w) (inv : Inv S.img w) (hhalf : l.half = none)
    (hlk : lk ∉ l.locks) (hfree : (w.lock lk).locked = none) :
    On { l with half := some lk } h
      (w.setLock lk fun s => { s with locked := some h }) where
  ctx := on.ctx
  held lk' := by
    by_cases heq : lk' = lk
    · subst heq
      simp [setLock_self, Local.held]
    · rw [setLock_of_ne w _ heq, on.held]
      simp [Local.held, hhalf, Ne.symm heq]
  cpu lk' hlk' := by
    rw [setLock_of_ne w _ (by rintro rfl; exact hlk hlk')]
    exact on.cpu lk' hlk'
  nodup := on.nodup
  half lk' heq := by
    cases heq
    refine ⟨hlk, ?_⟩
    rw [setLock_self]
    refine Option.eq_none_iff_forall_ne_some.mpr fun h' hcpu => ?_
    have hlocked := inv.lock_cpu hcpu
    rw [hfree] at hlocked
    cases hlocked
  noff := on.noff
  unmasked := on.unmasked
  masked := on.masked
  proc := on.proc

theorem setLock_cpu_locked (w : World H) (lk lk' : Lock) (cpu : Option H) :
    ((w.setLock lk fun s => { s with cpu }).lock lk').locked = (w.lock lk').locked := by
  by_cases heq : lk' = lk
  · subst heq
    rw [setLock_self]
  · rw [setLock_of_ne w _ heq]

theorem On.locked (on : On { l.pushed with half := some lk } h w)
    (hhalf : l.half = none) :
    On { l with locks := lk :: l.locks } h
      (w.setLock lk fun s => { s with cpu := some h }) where
  ctx := on.ctx
  held lk' := by
    rw [setLock_cpu_locked, on.held]
    simp [Local.held, Local.pushed, hhalf, or_comm, eq_comm]
  cpu lk' hlk' := by
    by_cases heq : lk' = lk
    · subst heq
      rw [setLock_self]
    · rw [setLock_of_ne w _ heq]
      exact on.cpu lk' ((List.mem_cons.mp hlk').resolve_left heq)
  nodup := List.nodup_cons.mpr ⟨(on.half lk rfl).1, on.nodup⟩
  half lk' heq := by simp [hhalf] at heq
  noff := by
    have hnoff := on.noff
    simp only [Local.pushed] at hnoff
    simp only [List.length_cons]
    exact hnoff.trans (by omega)
  unmasked hzero := by simp at hzero
  masked _ := on.masked (by simp [Local.pushed])
  proc := on.proc

/-- `release` clears `cpu` first. -/
theorem On.unlocking (on : On l h w) (hhalf : l.half = none) (hlk : lk ∈ l.locks) :
    On { l with locks := l.locks.erase lk, half := some lk, depth := l.depth + 1 } h
      (w.setLock lk fun s => { s with cpu := none }) where
  ctx := on.ctx
  held lk' := by
    rw [setLock_cpu_locked, on.held]
    by_cases heq : lk' = lk
    · subst heq
      simp [Local.held, hlk]
    · simp [Local.held, hhalf, heq, Ne.symm heq]
  cpu lk' hlk' := by
    have hne : lk' ≠ lk := by
      rintro rfl
      exact on.nodup.not_mem_erase hlk'
    rw [setLock_of_ne w _ hne]
    exact on.cpu lk' (List.mem_of_mem_erase hlk')
  nodup := on.nodup.erase lk
  half lk' heq := by
    cases heq
    refine ⟨on.nodup.not_mem_erase, ?_⟩
    rw [setLock_self]
  noff := by
    have hpos := List.length_pos_of_mem hlk
    have hnoff := on.noff
    simp only [List.length_erase_of_mem hlk]
    exact hnoff.trans (by omega)
  unmasked hzero := by simp at hzero
  masked _ := on.masked (by
    have hpos := List.length_pos_of_mem hlk
    omega)
  proc := on.proc

/-- Then it gives the lock back. -/
theorem On.unlocked (on : On { l with half := some lk } h w) (hhalf : l.half = none) :
    On l h (w.setLock lk fun s => { s with locked := none }) where
  ctx := on.ctx
  held lk' := by
    by_cases heq : lk' = lk
    · subst heq
      have hnot := (on.half lk' rfl).1
      simpa [setLock_self, Local.held, hhalf] using hnot
    · rw [setLock_of_ne w _ heq, on.held]
      simp [Local.held, hhalf, Ne.symm heq]
  cpu lk' hlk' := by
    rw [setLock_of_ne w _ (by rintro rfl; exact (on.half lk' rfl).1 hlk')]
    exact on.cpu lk' hlk'
  nodup := on.nodup
  half lk' heq := by simp [hhalf] at heq
  noff := on.noff
  unmasked := on.unmasked
  masked := on.masked
  proc := on.proc

/-! ## Accesses with interrupts off -/

variable [DecidableEq H]

theorem guarantee_refl (inv : Inv S.img w) : (logic S).Guarantee h w w :=
  ⟨inv, fun _ => .still _, rfl, fun _ _ => .refl _ _, fun _ _ =>
    ⟨.refl, fun _ _ hdead halive => absurd halive hdead, .refl, fun _ _ => rfl⟩⟩

theorem wp_masked {f : H → World H → β × World H} {K : β → H → World H → Prop}
    (hF : Stable S l F) (inv : Inv S.img w) (masked : Masked l n e F h w)
    (hstep : ∀ w', Inv S.img w' → Masked l n e F h w' →
      (logic S).Guarantee h w' (f h w').2 ∧ K (f h w').1 h (f h w').2) :
    (logic S).wp (act f) K h w := by
  intro h' w' env inv'
  obtain ⟨rfl, r, -⟩ := env_off inv masked.sie env
  exact hstep w' inv' (masked.rely hF r)

theorem wp_masked_read {f : H → World H → β} {K : β → H → World H → Prop}
    (hF : Stable S l F) (inv : Inv S.img w) (masked : Masked l n e F h w)
    (hstep : ∀ w', Inv S.img w' → Masked l n e F h w' → K (f h w') h w') :
    (logic S).wp (act fun h w => (f h w, w)) K h w :=
  wp_masked hF inv masked fun w' inv' masked' =>
    ⟨guarantee_refl inv', hstep w' inv' masked'⟩

theorem wp_masked_writeCpu {f : Cpu → Cpu} {K : Unit → H → World H → Prop}
    (hF : Stable S l F) (inv : Inv S.img w) (masked : Masked l n e F h w)
    (hproc : ∀ c, (f c).proc = c.proc)
    (hstep : ∀ w', Inv S.img w' → (w'.cpus h).noff = n → (w'.cpus h).intena = e →
      Masked l (f (w'.cpus h)).noff (f (w'.cpus h)).intena F h (w'.setCpu h f) →
      Inv S.img (w'.setCpu h f) → K () h (w'.setCpu h f)) :
    (logic S).wp (writeCpu f) K h w := by
  refine wp_masked hF inv masked fun w' inv' masked' => ?_
  have inv'' := inv'.setCpu masked'.sie f (hproc _)
  refine ⟨(own_cpu f (.inr (hproc _))).guarantee inv' inv'',
    hstep w' inv' masked'.noff masked'.intena ⟨?_, masked'.sie, ?_, ?_, masked'.data⟩
      inv''⟩
  · have holds := masked'.holds
    exact ⟨holds.ctx, holds.held, holds.cpu, holds.nodup, holds.half,
      by simpa [World.setCpu, hproc] using holds.proc⟩
  · simp [World.setCpu]
  · simp [World.setCpu]

theorem On.masked_off (on : On l h w) (hF : F w.kernel) :
    Masked l (l.locks.length + l.depth) (w.cpus h).intena F h (w.setSie h false) where
  holds := ⟨on.ctx, on.held, on.cpu, on.nodup, on.half, on.proc⟩
  sie := by simp [World.setSie, World.setCsr]
  noff := on.noff
  intena := rfl
  data := hF

theorem Masked.on_on (masked : Masked l 0 true F h w) (hlocks : l.locks = [])
    (hdepth : l.depth = 0) (hsie : l.sie = true) :
    On l h (w.setSie h true) where
  toHolds :=
    ⟨masked.holds.ctx, masked.holds.held, masked.holds.cpu, masked.holds.nodup,
      masked.holds.half, masked.holds.proc⟩
  noff := by rw [hlocks, hdepth]; exact masked.noff
  unmasked _ := by simp [World.setSie, World.setCsr, hsie]
  masked hne := by simp [hlocks, hdepth] at hne

/-! ## push_off and pop_off -/

theorem Masked.incr (inv : Inv S.img w) (hF : Stable S l F)
    (masked : Masked l (l.locks.length + l.depth) l.sie F h w) :
    (logic S).wp (writeCpu fun c => { c with noff := c.noff + 1 })
      (fun _ h' w' => On l.pushed h' w' ∧ F w'.kernel) h w := by
  refine wp_masked_writeCpu hF inv masked (fun _ => rfl) fun w' _ hnoff hintena m _ => ?_
  refine ⟨?_, m.data⟩
  have m' : Masked l.pushed (l.locks.length + l.depth + 1) l.pushed.sie F h _ :=
    ⟨m.holds.depth _, m.sie, by rw [m.noff, hnoff], by rw [m.intena, hintena]; rfl,
      m.data⟩
  exact m'.on (by simp [Local.pushed, add_assoc]) (by simp [Local.pushed])

theorem Triple.pushOff (hF : Stable S l F) :
    Triple S l F (pushOff : Code H Unit) (fun _ => l.pushed) fun _ => F := by
  intro h w inv on hf
  refine ((logic S).wp_bind ..).mpr fun h₁ w₁ env₁ inv₁ => ⟨guarantee_refl inv₁, ?_⟩
  obtain ⟨on₁, -, frame₁⟩ := env_on inv on env₁
  have hold : l.locks.length + l.depth = 0 → (w₁.csr h₁).sstatus.sie = l.sie :=
    on₁.unmasked
  refine ((logic S).wp_bind ..).mpr fun h₂ w₂ env₂ inv₂ => ?_
  obtain ⟨on₂, -, frame₂⟩ := env_on inv₁ on₁ env₂
  have inv₃ : Inv S.img (w₂.setSie h₂ false) := inv₂.setCsr _ nofun
  refine ⟨(own_csr _).guarantee inv₂ inv₃, ?_⟩
  have hintena : l.locks.length + l.depth ≠ 0 → (w₂.cpus h₂).intena = l.sie :=
    fun hne => (on₂.masked hne).2
  -- from here on no trap can move the program to another hart
  have masked := on₂.masked_off (hF _ _ frame₂ (hF _ _ frame₁ hf))
  refine ((logic S).wp_bind ..).mpr (wp_masked_read hF inv₃ masked fun w₄ inv₄ m₄ => ?_)
  simp only [m₄.noff]
  split
  · next hzero =>
    refine ((logic S).wp_bind ..).mpr
      (wp_masked_writeCpu hF inv₄ m₄ (fun _ => rfl) fun w₅ _ hnoff _ m₅ inv₅ => ?_)
    exact Masked.incr inv₅ hF
      ⟨m₅.holds, m₅.sie, m₅.noff.trans hnoff, m₅.intena.trans (hold (by omega)), m₅.data⟩
  · next hne =>
    refine Masked.incr inv₄ hF ?_
    rwa [← hintena (by omega)]

/-- The outermost `pop_off` may set `SIE`, so the hart must be fit for a trap. -/
theorem Triple.popOff (hF : Stable S l F)
    (hzero : l.locks.length + l.depth = 0 → l.sie = true →
      l.half = none ∧ l.proc = l.ctx.slot) :
    Triple S l.pushed F (popOff : Code H Unit) (fun _ => l) fun _ => F := by
  intro h w inv on hf
  have masked : Masked l (l.locks.length + l.depth + 1) l.sie F h w := by
    have m := on.to_masked (F := F) (by simp [Local.pushed]) hf
    exact ⟨m.holds.depth l.depth, m.sie, by rw [m.noff]; simp [Local.pushed, add_assoc],
      m.intena, m.data⟩
  refine ((logic S).wp_bind ..).mpr (wp_masked_read hF inv masked fun w₁ inv₁ m₁ => ?_)
  simp only [m₁.sie, Bool.false_eq_true, if_false]
  refine ((logic S).wp_bind ..).mpr (wp_masked_read hF inv₁ m₁ fun w₂ inv₂ m₂ => ?_)
  simp only [m₂.noff]
  rw [if_neg (by omega)]
  refine ((logic S).wp_bind ..).mpr
    (wp_masked_writeCpu hF inv₂ m₂ (fun _ => rfl) fun w₃ _ hnoff hintena m₃ inv₃ => ?_)
  have m₃' : Masked l (l.locks.length + l.depth) l.sie F h _ :=
    ⟨m₃.holds, m₃.sie, by rw [m₃.noff, hnoff]; simp, by rw [m₃.intena, hintena], m₃.data⟩
  refine ((logic S).wp_bind ..).mpr
    (wp_masked_read hF inv₃ m₃' fun w₄ inv₄ m₄ => ?_)
  simp only [m₄.noff]
  split
  · next hnoff =>
    have hlocks : l.locks = [] := List.eq_nil_of_length_eq_zero (by omega)
    have hdepth : l.depth = 0 := by omega
    rw [hlocks, hdepth] at m₄
    refine ((logic S).wp_bind ..).mpr (wp_masked_read hF inv₄ m₄ fun w₅ inv₅ m₅ => ?_)
    simp only [m₅.intena]
    split
    · next hsie =>
      obtain ⟨hhalf, hproc⟩ := hzero (by omega) hsie
      rw [hsie] at m₅
      refine wp_masked hF inv₅ m₅ fun w₆ inv₆ m₆ => ?_
      have inv₇ : Inv S.img (w₆.setSie h true) :=
        inv₆.setCsr _ fun _ => m₆.quiet hlocks hhalf hproc
      exact ⟨(own_csr _).guarantee inv₆ inv₇, m₆.on_on hlocks hdepth hsie, m₆.data⟩
    · next hsie =>
      exact ⟨⟨m₅.holds, by rw [m₅.noff, hlocks, hdepth],
        fun _ => by rw [m₅.sie, Bool.eq_false_of_not_eq_true hsie],
        fun hne => absurd hne (by simp [hlocks, hdepth])⟩, m₅.data⟩
  · next hne =>
    exact ⟨m₄.on rfl (by omega), m₄.data⟩

/-! ## holding -/

/-- Only the holder of a lock is in its `cpu`, as soon as it has written it. -/
theorem Triple.holding (hF : Stable S l F) (hne : l.locks.length + l.depth ≠ 0)
    (hhalf : l.half = none) :
    Triple S l F (holding lk : Code H Bool) (fun _ => l)
      fun answer k => F k ∧ (answer = true ↔ lk ∈ l.locks) := by
  intro h w inv on hf
  have masked := on.to_masked hne hf
  refine ((logic S).wp_bind ..).mpr (wp_masked_read hF inv masked fun w₁ inv₁ m₁ => ?_)
  have hheld : ∀ w', Holds l h w' → ((w'.lock lk).locked = some h ↔ lk ∈ l.locks) :=
    fun w' holds => by simp [holds.held, Local.held, hhalf]
  split
  · refine ((logic S).wp_bind ..).mpr (wp_masked_read hF inv₁ m₁ fun w₂ inv₂ m₂ => ?_)
    refine ((logic S).wp_bind ..).mpr (wp_masked_read hF inv₂ m₂ fun w₃ inv₃ m₃ => ?_)
    refine ⟨m₃.on rfl hne, m₃.data, ?_⟩
    rw [decide_eq_true_iff]
    exact ⟨fun hcpu => (hheld w₃ m₃.holds).mp (inv₃.lock_cpu hcpu),
      fun hlk => m₃.holds.cpu lk hlk⟩
  · next hfree =>
    refine ⟨m₁.on rfl hne, m₁.data, iff_of_false Bool.false_ne_true fun hlk => hfree ?_⟩
    simp [(hheld w₁ m₁.holds).mpr hlk]

/-! ## The contracts are met -/

/-- A contract is met if it is met for each description of the hart. -/
theorem call_of_triple {i : Instr H β} {program : Code H β} {h : H} {w : World H}
    (inv : Inv S.img w) (hpre : (logic S).pre i h w)
    (hwp : ∀ l, On l h w → Pre S i l w →
      (logic S).wp program (Post S i l w) h w) :
    (logic S).wp program (fun answer h' w' => (logic S).post i h w answer h' w') h w := by
  obtain ⟨l₀, on₀, hpre₀⟩ := hpre
  have : Nonempty { l : Local H // On l h w ∧ Pre S i l w } := ⟨⟨l₀, on₀, hpre₀⟩⟩
  have hall : (logic S).wp program (fun answer h' w' =>
      ∀ l : { l : Local H // On l h w ∧ Pre S i l w }, Post S i l.val w answer h' w') h w :=
    (logic S).wp_forall fun l => hwp l.val l.property.1 l.property.2
  exact Logic.wp_mono inv (fun _ _ _ _ hpost l on hpre => hpost ⟨l, on, hpre⟩) hall

theorem Triple.wp {program : Code H α} {l' : α → Local H} {G : α → Kernel → Prop}
    {Q : α → H → World H → Prop} (triple : Triple S l F program l' G)
    (inv : Inv S.img w) (on : On l h w) (hF : F w.kernel)
    (hpost : ∀ value h' w', Inv S.img w' → On (l' value) h' w' → G value w'.kernel →
      Q value h' w') : (logic S).wp program Q h w :=
  Logic.wp_mono inv (fun value h' w' inv' hpost' =>
    hpost value h' w' inv' hpost'.1 hpost'.2) (triple h w inv on hF)

theorem spinBody_spec (inv : Inv S.img w) (on : On l h w)
    (hpre : Pre S (.spin lk : Instr H Unit) l w) :
    (logic S).wp (spinBody lk) (Post S (.spin lk : Instr H Unit) l w) h w := by
  obtain ⟨hhalf, hdepth, hlk⟩ := hpre
  have hframe := Stable.frame (S := S) (l := l) w.kernel fun _ => id
  have test : Triple S l (Frame S False l.ctx l.held w.kernel) (testAndSet lk)
      (fun set => if set then l else { l with half := some lk })
      fun set k => Frame S False l.ctx l.held w.kernel k ∧
        (set = false → Acquired l lk k) := by
    refine .act hframe fun h' w' inv' on' frame => ?_
    cases hlocked : (w'.lock lk).locked with
    | some _ => exact ⟨guarantee_refl inv', on', frame, nofun⟩
    | none =>
        have hsie := (on'.masked (by omega)).1
        refine ⟨(own_lock _ (by simp [hlocked]) fun h'' hne => ?_).guarantee inv'
          (inv'.take hsie hlocked), on'.taken inv' hhalf hlk hlocked, frame, fun _ =>
          on'.acquired inv' hlocked⟩
        simpa using Ne.symm hne
  have body : Triple S l (Frame S False l.ctx l.held w.kernel) (spinBody lk)
      (fun _ => { l with half := some lk })
      fun _ k => Frame S False l.ctx l.held w.kernel k ∧ Acquired l lk k := by
    refine test.bind fun set => ?_
    cases set with
    | false => exact .pure (fun k hk => ⟨hk.1, hk.2 rfl⟩) rfl
    | true =>
        refine .pre (.call rfl hframe (fun _ _ _ _ _ => ⟨hhalf, hdepth, hlk⟩) ?_)
          fun _ => And.left
        intro w' _ h'' w'' _ hF hpost
        exact ⟨hpost.1, hF.trans hpost.2.1, hpost.2.2⟩
  exact body.wp inv on .refl fun _ _ _ _ on' hG => ⟨on', hG⟩

omit [DecidableEq H] in
theorem Acquired.stable {l' : Local H} (hlk : l'.held lk) :
    Stable S l' (Acquired l lk) := by
  intro k k' frame acquired
  refine ⟨?_, ?_⟩
  · rintro rfl
    have kept := frame.wait hlk
    intro p hp
    obtain ⟨⟨q, hq⟩, hcalm⟩ := acquired.calm rfl p (kept.armed p hp)
    rw [kept.parent]
    exact ⟨⟨q, hq⟩, fun q hq hzombie => hcalm q hq ((kept.zombie q).mp hzombie)⟩
  · rintro p hp rfl
    rw [(frame.slot p hlk).state]
    exact acquired.running p hp rfl

theorem acquireBody_spec (inv : Inv S.img w) (on : On l h w)
    (hpre : Pre S (.acquire lk : Instr H Unit) l w) :
    (logic S).wp (acquireBody lk) (Post S (.acquire lk : Instr H Unit) l w) h w := by
  obtain ⟨hhalf, hdepth, hlk⟩ := hpre
  have hframe := Stable.frame (S := S) (l := l) w.kernel fun _ => id
  have spin : Triple S l.pushed (Frame S False l.ctx l.held w.kernel)
      (.perform (.spin lk) : Code H Unit)
      (fun _ => { l.pushed with half := some lk })
      fun _ k => Frame S False l.ctx l.held w.kernel k ∧ Acquired l.pushed lk k := by
    refine .call rfl hframe (fun _ _ _ _ _ => ⟨hhalf, by simp [Local.pushed], hlk⟩) ?_
    intro w' _ h'' w'' _ hF hpost
    exact ⟨hpost.1, hF.trans hpost.2.1, hpost.2.2⟩
  have hheld : Local.held { l.pushed with half := some lk } lk := .inr rfl
  have hmore : Stable S { l.pushed with half := some lk }
      (Frame S False l.ctx l.held w.kernel) :=
    hframe.more rfl fun lk' h => .inl (by simpa [Local.held, Local.pushed, hhalf] using h)
  have setCpu : Triple S { l.pushed with half := some lk }
      (fun k => Frame S False l.ctx l.held w.kernel k ∧ Acquired l.pushed lk k)
      (act fun h w => ((), w.setLock lk fun s => { s with cpu := some h }))
      (fun _ => { l with locks := lk :: l.locks })
      fun _ k => Frame S False l.ctx l.held w.kernel k ∧ Acquired l lk k := by
    refine .act (hmore.and (Acquired.stable hheld)) fun h' w' inv' on' hG => ?_
    have hmine : (w'.lock lk).locked = some h' := (on'.held lk).mpr hheld
    refine ⟨(own_lock _ (fun _ hne => not_other hmine hne) fun _ hne =>
      not_other hmine hne).guarantee inv' (inv'.setLockCpu hmine (.inr rfl)),
      on'.locked hhalf, hG.1, hG.2.calm, hG.2.running⟩
  have body : Triple S l (Frame S False l.ctx l.held w.kernel) (acquireBody lk)
      (fun _ => { l with locks := lk :: l.locks })
      fun _ k => Frame S False l.ctx l.held w.kernel k ∧ Acquired l lk k := by
    refine (Triple.pushOff hframe).bind fun _ => ?_
    refine (Triple.holding (l := l.pushed) hframe (by simp [Local.pushed]) hhalf).bind
      fun answer => ?_
    refine .known fun hanswer => ?_
    obtain rfl : answer = false := Bool.eq_false_iff.mpr fun h => hlk (hanswer.mp h)
    exact spin.bind fun _ => setCpu
  exact body.wp inv on .refl fun _ _ _ _ on' hG => ⟨on', hG⟩

/-- The process a hart runs is alive, or the hart holds its lock. -/
def OwnSafe (l : Local H) (k : Kernel) : Prop :=
  ∀ p, l.ctx = .proc p → (k.state p).Alive ∨ l.held (.proc p)

omit [DecidableEq H] in
theorem On.ownSafe (on : On l h w) (inv : Inv S.img w) : OwnSafe l w.kernel := by
  intro p hctx
  refine (inv.cur_state (on.ctx.trans hctx)).imp (fun hrun => ?_) (on.held _).mp
  rw [hrun]
  trivial

omit [DecidableEq H] in
theorem OwnSafe.armed {k k' : Kernel} (safe : OwnSafe l k)
    (frame : Frame S False l.ctx l.held k k') {p : Slot} (hctx : l.ctx = .proc p)
    (harmed : k'.phase p = .armed) : k.phase p = .armed := by
  have hown := frame.own
  rw [hctx] at hown
  by_cases halive : (k.state p).Alive
  · obtain ⟨phase, heq, hphase⟩ := (hown halive).shadow
    have hk' : k'.phase p = phase := by rw [Kernel.phase, heq]
    rw [hk'] at harmed
    subst harmed
    rcases hphase with h | ⟨h, -⟩
    · exact h.symm
    · exact h
  · have hslot := frame.slot p ((safe p hctx).resolve_left halive)
    have hstill := hslot.still fun h => halive (by rw [h]; trivial)
    rwa [Kernel.phase, hstill] at harmed

omit [DecidableEq H] in
theorem Releasable.stable (hlk : l.held lk) :
    Stable S l fun k => Releasable l lk k ∧ OwnSafe l k := by
  rintro k k' frame ⟨rel, safe⟩
  refine ⟨⟨?_, ?_, ?_⟩, ?_⟩
  · rintro p hctx rfl
    rw [(frame.slot p hlk).state]
    exact rel.running p hctx rfl
  · rintro rfl
    have acquired : Acquired l .wait k := ⟨rel.calm, nofun⟩
    exact (Acquired.stable hlk k k' frame acquired).calm rfl
  · intro p hctx harmed
    exact rel.armed p hctx (safe.armed frame hctx harmed)
  · intro p hctx
    refine (safe p hctx).imp_left fun halive => ?_
    have hown := frame.own
    rw [hctx] at hown
    exact (hown halive).alive

theorem releaseBody_spec (inv : Inv S.img w) (on : On l h w)
    (hpre : Pre S (.release lk : Instr H Unit) l w) :
    (logic S).wp (releaseBody lk) (Post S (.release lk : Instr H Unit) l w) h w := by
  obtain ⟨hhalf, hdepth, hlk, hproc, hrel⟩ := hpre
  let l₁ : Local H := { l with locks := l.locks.erase lk }
  let l₂ : Local H := { l₁.pushed with half := some lk }
  have hne : l.locks.length + l.depth ≠ 0 := by
    have := List.length_pos_of_mem hlk
    omega
  have hheld₂ : ∀ lk', l₂.held lk' ↔ l.held lk' := by
    intro lk'
    by_cases heq : lk' = lk
    · subst heq
      simp [Local.held, l₂, hlk]
    · simp [Local.held, l₂, l₁, Local.pushed, hhalf, heq, Ne.symm heq]
  let F := Frame S False l.ctx (fun lk' => lk' ∈ l.locks.erase lk) w.kernel
  have hF : Stable S l F := .frame _ fun _ h => .inl (List.mem_of_mem_erase h)
  have hF₁ : Stable S l₁ F := Stable.frame (l := l₁) _ fun _ h => .inl h
  have hdrop : Stable S l fun k => Releasable l lk k ∧ OwnSafe l k :=
    Releasable.stable (.inl hlk)
  have clear : Triple S l (fun k => F k ∧ Releasable l lk k ∧ OwnSafe l k)
      (act fun _ w => ((), w.setLock lk fun s => { s with cpu := none }))
      (fun _ => l₂) fun _ k => F k ∧ Releasable l lk k ∧ OwnSafe l k := by
    refine .act (hF.and hdrop) fun h' w' inv' on' hG => ?_
    have hmine : (w'.lock lk).locked = some h' := (on'.held lk).mpr (.inl hlk)
    refine ⟨(own_lock _ (fun _ hne => not_other hmine hne) fun _ hne =>
      not_other hmine hne).guarantee inv' (inv'.setLockCpu hmine (.inl rfl)), ?_, hG⟩
    have on'' := on'.unlocking hhalf hlk
    exact on''
  have unlock : Triple S l₂ (fun k => F k ∧ Releasable l lk k ∧ OwnSafe l k)
      (act fun _ w => ((), w.setLock lk fun s => { s with locked := none }))
      (fun _ => l₁.pushed) fun _ => F := by
    have hF₂ : Stable S l₂ fun k => F k ∧ Releasable l lk k ∧ OwnSafe l k :=
      (hF.and hdrop).more rfl fun lk' => (hheld₂ lk').mpr
    refine .act hF₂ fun h' w' inv' on' hG => ?_
    have hmine : (w'.lock lk).locked = some h' := (on'.held lk).mpr (.inr rfl)
    have hrel' : Releasable l₂ lk w'.kernel :=
      ⟨hG.2.1.running, hG.2.1.calm, fun p hctx harmed => by
        simpa only [hheld₂] using hG.2.1.armed p hctx harmed⟩
    refine ⟨(own_lock _ (fun _ hne => not_other hmine hne) (by simp)).guarantee inv'
      (inv'.drop on' hmine (on'.half lk rfl).2 hproc hrel'), on'.unlocked hhalf, hG.1⟩
  have body : Triple S l (fun k => F k ∧ Releasable l lk k ∧ OwnSafe l k)
      (releaseBody lk) (fun _ => l₁) fun _ => F := by
    refine (Triple.holding (hF.and hdrop) hne hhalf).bind fun answer => ?_
    refine .known fun hanswer => ?_
    obtain rfl := hanswer.mpr hlk
    refine clear.bind fun _ => unlock.bind fun _ => ?_
    exact Triple.popOff hF₁ fun _ _ => ⟨hhalf, hproc⟩
  exact body.wp inv on ⟨.refl, hrel, on.ownSafe inv⟩ fun _ _ _ _ on' hG => ⟨on', hG⟩

theorem Triple.readCpu {f : Cpu → β} (hF : Stable S l F) :
    Triple S l F (readCpu f : Code H β) (fun _ => l) fun _ => F :=
  .act hF fun _ _ inv' on' hG => ⟨guarantee_refl inv', on', hG⟩

theorem myprocBody_spec (inv : Inv S.img w) (on : On l h w)
    (hpre : Pre S (.myproc : Instr H (Option Slot)) l w) :
    (logic S).wp myprocBody (Post S (.myproc : Instr H (Option Slot)) l w) h w := by
  have hframe := Stable.frame (S := S) (l := l) w.kernel fun _ => id
  have proc : Triple S l.pushed (Frame S False l.ctx l.held w.kernel)
      (Process.readCpu (·.proc)) (fun _ => l.pushed)
      fun p k => Frame S False l.ctx l.held w.kernel k ∧ p = l.proc :=
    .act hframe fun _ _ inv' on' hG => ⟨guarantee_refl inv', on', hG, on'.proc⟩
  have body : Triple S l (Frame S False l.ctx l.held w.kernel) myprocBody (fun _ => l)
      fun p k => Frame S False l.ctx l.held w.kernel k ∧ p = l.proc := by
    refine (Triple.pushOff hframe).bind fun _ => proc.bind fun p => ?_
    refine (Triple.popOff (hframe.and .const) fun hzero hsie => ⟨hpre, ?_⟩).bind
      fun _ => .pure (fun _ => id) rfl
    have hon := on.unmasked hzero
    exact (on.of_quiet (inv.quiet h (hon.trans hsie)) (hon.trans hsie)).2.2.2.2
  exact body.wp inv on .refl fun _ _ _ _ on' hG => ⟨on', hG⟩

/-! ## What callers use -/

theorem Triple.acquire (hF : Stable S l F) (hhalf : l.half = none) (hdepth : l.depth = 0)
    (hlk : lk ∉ l.locks) :
    Triple S l F (acquire lk : Code H Unit) (fun _ => { l with locks := lk :: l.locks })
      fun _ k => F k ∧ Acquired l lk k :=
  .call rfl hF (fun _ _ _ _ _ => ⟨hhalf, hdepth, hlk⟩) fun _ _ _ _ _ hf hpost =>
    ⟨hpost.1, hF _ _ hpost.2.1 hf, hpost.2.2⟩

/-- What the lock protected, `F`, may be known before and be lost. -/
theorem Triple.release {G : Kernel → Prop} (hF : Stable S l F)
    (hG : Stable S { l with locks := l.locks.erase lk } G) (hFG : ∀ k, F k → G k)
    (hhalf : l.half = none) (hdepth : l.depth = 0) (hlk : lk ∈ l.locks)
    (hproc : l.proc = l.ctx.slot)
    (hrel : ∀ h w, Inv S.img w → On l h w → F w.kernel → Releasable l lk w.kernel) :
    Triple S l F (release lk : Code H Unit)
      (fun _ => { l with locks := l.locks.erase lk }) fun _ => G := by
  refine .call rfl hF (fun h w inv on hf =>
    ⟨hhalf, hdepth, hlk, hproc, hrel h w inv on hf⟩) fun w _ h' w' _ hf hpost =>
    ⟨hpost.1, hG _ _ (hpost.2.weaken id fun lk' h => ?_) (hFG _ hf)⟩
  simpa [Local.held, hhalf] using h

theorem Triple.myproc (hF : Stable S l F) (hhalf : l.half = none) :
    Triple S l F (myproc : Code H (Option Slot)) (fun _ => l)
      fun p k => F k ∧ p = l.proc :=
  .call rfl hF (fun _ _ _ _ _ => hhalf) fun _ _ _ _ _ hf hpost =>
    ⟨hpost.1, hF _ _ hpost.2.1 hf, hpost.2.2⟩

end Xv6Kernel.Process
