import Xv6Kernel.Foundation.Returning
import Xv6Kernel.Process.FirstTurns

/-!
# What `yield` and `sleep` give back

`noff` and `intena` belong to the hart, and whatever runs while a process is switched
out overwrites them.  The process finds them as it left them, since `sched` keeps
`intena` on its stack and every process leaves with exactly one lock.
-/

namespace Xv6Kernel.Process

open Xv6Kernel.Foundation Xv6Kernel.Mm

variable {H : Type} [DecidableEq H] {S : Setting H} {α β : Type} {l : Local H} {h : H}
  {w w' : World H} {lk : Lock} {p : Slot} {sie sie' : Bool}

/-! ## The hart of a safe program -/

theorem wlp_act {f : H → World H → β × World H} {Q : β → H → World H → Prop}
    (inv : Inv S.img w) (on : On l h w)
    (hQ : ∀ h' w', On l h' w' → Inv S.img (f h' w').2 → Q (f h' w').1 h' (f h' w').2) :
    (logic S).wlp (act f) Q h w := by
  intro h' w' env _ guarantee
  exact hQ h' w' (env_on inv on env).1 guarantee.inv

theorem wlp_choose {Q : β → H → World H → Prop} (inv : Inv S.img w) (on : On l h w)
    (hQ : ∀ answer h' w', Inv S.img w' → On l h' w' → Q answer h' w') :
    (logic S).wlp (choose β) Q h w := by
  intro h' w' env inv' answer
  exact hQ answer h' w' inv' (env_on inv on env).1

/-- What is called knows the history of the run from when it was to be called. -/
theorem wlp_perform {i : Instr H β} {body : Code H β} {Q : β → H → World H → Prop}
    (hbody : effect S.img i = .call body) (inv : Inv S.img w) (on : On l h w)
    (hQ : ∀ h₁ w₁ answer h' w', On l h₁ w₁ → w.kernel.log <:+ w₁.kernel.log →
      (logic S).pre i h₁ w₁ → Inv S.img w' → (logic S).post i h₁ w₁ answer h' w' →
        Q answer h' w') :
    (logic S).wlp (Program.perform i) Q h w := by
  intro h' w' env inv'
  obtain ⟨on', -, frame⟩ := env_on inv on env
  have heffect : (platform S.img S.quiet : Platform _ H _ _).effect i = .call body := hbody
  unfold Logic.Leads
  rw [heffect]
  exact fun hneeds answer h'' w'' inv'' hpost =>
    hQ h' w' answer h'' w'' on' frame.forever.log hneeds inv'' hpost

theorem wlp_call {i : Instr H β} {body : Code H β} {Q : β → H → World H → Prop}
    (hbody : effect S.img i = .call body) (inv : Inv S.img w) (on : On l h w)
    (hpre : ∀ h' w', On l h' w' → (logic S).pre i h' w' → Pre S i l w')
    (hQ : ∀ w₁ answer h' w', Inv S.img w' → Post S i l w₁ answer h' w' → Q answer h' w') :
    (logic S).wlp (Program.perform i) Q h w :=
  wlp_perform hbody inv on fun h₁ w₁ answer h' w' on₁ _ hneeds inv' hpost =>
    hQ w₁ answer h' w' inv' (hpost l on₁ (hpre h₁ w₁ on₁ hneeds))

theorem wlp_acquire {Q : Unit → H → World H → Prop} (inv : Inv S.img w) (on : On l h w)
    (hhalf : l.half = none) (hdepth : l.depth = 0) (hlk : lk ∉ l.locks)
    (hQ : ∀ h' w', Inv S.img w' → On { l with locks := lk :: l.locks } h' w' → Q () h' w') :
    (logic S).wlp (acquire lk) Q h w :=
  wlp_call rfl inv on (fun _ _ _ _ => ⟨hhalf, hdepth, hlk⟩) fun _ _ h' w' inv' hpost =>
    hQ h' w' inv' hpost.1

omit [DecidableEq H] in
/-- What is needed to release a lock depends on the stack and the locks held only. -/
theorem releasable_of_on {l' : Local H} {k : Kernel} (on : On l h w) (on' : On l' h w)
    (rel : Releasable l' lk k) : Releasable l lk k := by
  have hctx : l'.ctx = l.ctx := on'.ctx.symm.trans on.ctx
  have hheld : ∀ lk', l'.held lk' ↔ l.held lk' := fun lk' =>
    (on'.held lk').symm.trans (on.held lk')
  refine ⟨fun p hp => rel.running p (hctx.trans hp), rel.calm, fun p hp harmed => ?_⟩
  simpa only [hheld] using rel.armed p (hctx.trans hp) harmed

theorem wlp_release {Q : Unit → H → World H → Prop} (inv : Inv S.img w) (on : On l h w)
    (hhalf : l.half = none) (hdepth : l.depth = 0) (hlk : lk ∈ l.locks)
    (hproc : l.proc = l.ctx.slot)
    (hQ : ∀ h' w', Inv S.img w' → On { l with locks := l.locks.erase lk } h' w' →
      Q () h' w') :
    (logic S).wlp (release lk) Q h w := by
  refine wlp_call rfl inv on (fun h' w' on' hneeds => ?_) fun _ _ h' w' inv' hpost =>
    hQ h' w' inv' hpost.1
  obtain ⟨l', on₁, -, -, -, -, rel⟩ := hneeds
  exact ⟨hhalf, hdepth, hlk, hproc, releasable_of_on on' on₁ rel⟩

theorem wlp_myproc {Q : Option Slot → H → World H → Prop} (inv : Inv S.img w) (on : On l h w)
    (hhalf : l.half = none)
    (hQ : ∀ h' w', Inv S.img w' → On l h' w' → Q l.proc h' w') :
    (logic S).wlp myproc Q h w :=
  wlp_call rfl inv on (fun _ _ _ _ => hhalf) fun _ answer h' w' inv' hpost => by
    obtain ⟨on', -, rfl⟩ := hpost
    exact hQ h' w' inv' on'

theorem wlp_deref {Q : β → H → World H → Prop} {target : β} (hQ : Q target h w) :
    (logic S).wlp (deref (some target)) Q h w := hQ

/-- A check that ends the run of the hart if it fails. -/
theorem wlp_check {c : Prop} [Decidable c] {message : String} {rest : Unit → Code H α}
    {Q : α → H → World H → Prop} (hrest : (logic S).wlp (rest ()) Q h w) :
    (logic S).wlp (if c then panic message >>= rest else rest ()) Q h w := by
  split
  · exact fun _ _ _ _ => trivial
  · exact hrest

theorem wlp_holding {Q : Bool → H → World H → Prop} (inv : Inv S.img w) (on : On l h w)
    (hQ : ∀ answer h' w', Inv S.img w' → On l h' w' → Q answer h' w') :
    (logic S).wlp (holding lk) Q h w := by
  refine (Logic.wlp_bind ..).mpr (wlp_act inv on fun h₁ w₁ on₁ inv₁ => ?_)
  split
  · refine (Logic.wlp_bind ..).mpr (wlp_act inv₁ on₁ fun h₂ w₂ on₂ inv₂ => ?_)
    exact (Logic.wlp_bind ..).mpr (wlp_act inv₂ on₂ fun h₃ w₃ on₃ inv₃ =>
      hQ _ h₃ w₃ inv₃ on₃)
  · exact hQ false h₁ w₁ inv₁ on₁

/-- Nothing is taken from the history before a write. -/
theorem wlp_write {f : Kernel → Kernel} {Q : Unit → H → World H → Prop} (inv : Inv S.img w)
    (on : On l h w) (hlog : ∀ k, (f k).log = k.log)
    (hQ : ∀ h' w', On l h' w' → Inv S.img w' → w.kernel.log <:+ w'.kernel.log → Q () h' w') :
    (logic S).wlp (Process.write f) Q h w := by
  intro h' w' env _ guarantee
  obtain ⟨on', -, frame⟩ := env_on inv on env
  have hgrows : w.kernel.log <:+ (f w'.kernel).log := by
    rw [hlog]
    exact frame.forever.log
  exact hQ h' _ (on'.write _) guarantee.inv hgrows

/-! ## sched -/

theorem On.withIntena (on : On (.ofProc p [.proc p] sie') h w) :
    On (.ofProc p [.proc p] sie) h (w.setCpu h fun c => { c with intena := sie }) := by
  have hself : (w.setCpu h fun c => { c with intena := sie }).cpus h =
      { w.cpus h with intena := sie } := Function.update_self ..
  have hmasked := on.masked (by simp [Local.ofProc])
  exact ⟨⟨on.ctx, on.held, on.cpu, on.nodup, on.half, by rw [hself]; exact on.proc⟩,
    by rw [hself]; exact on.noff, fun hzero => by simp [Local.ofProc] at hzero,
    fun _ => ⟨hmasked.1, by rw [hself]; rfl⟩⟩

/-- The hart that comes back to a process holds its lock and nothing else. -/
theorem wlp_swtchToCpu {Q : Unit → H → World H → Prop} (inv : Inv S.img w)
    (on : On (.ofProc p [.proc p] sie) h w)
    (hQ : ∀ sie' h' w', Inv S.img w' → On (.ofProc p [.proc p] sie') h' w' → Q () h' w') :
    (logic S).wlp (swtchToCpu S.img p) Q h w := by
  refine (Logic.wlp_bind ..).mpr (wlp_act inv on fun h₁ w₁ on₁ inv₁ => ?_)
  refine (Logic.wlp_bind ..).mpr (wlp_choose inv₁ on₁ fun regs h₂ w₂ inv₂ on₂ => ?_)
  intro h₃ w₃ _ _ _ h₄ w₄ inv₄ hresume _ _
  obtain ⟨⟨sie', on₄⟩, -⟩ := hresume
  exact hQ sie' h₄ w₄ inv₄ on₄

theorem wlp_sched {Q : Unit → H → World H → Prop} (inv : Inv S.img w)
    (on : On (.ofProc p [.proc p] sie) h w)
    (hQ : ∀ h' w', Inv S.img w' → On (.ofProc p [.proc p] sie) h' w' → Q () h' w') :
    (logic S).wlp (sched S.img) Q h w := by
  refine (Logic.wlp_bind ..).mpr (wlp_myproc inv on rfl fun h₁ w₁ inv₁ on₁ => ?_)
  refine (Logic.wlp_bind ..).mpr (wlp_deref ?_)
  refine (Logic.wlp_bind ..).mpr (wlp_holding inv₁ on₁ fun _ h₂ w₂ inv₂ on₂ => ?_)
  refine wlp_check ((Logic.wlp_bind ..).mpr (wlp_act inv₂ on₂ fun h₃ w₃ on₃ inv₃ => ?_))
  refine wlp_check ((Logic.wlp_bind ..).mpr (wlp_act inv₃ on₃ fun h₄ w₄ on₄ inv₄ => ?_))
  refine wlp_check ((Logic.wlp_bind ..).mpr (wlp_act inv₄ on₄ fun h₅ w₅ on₅ inv₅ => ?_))
  refine wlp_check ((Logic.wlp_bind ..).mpr (wlp_act inv₅ on₅ fun h₆ w₆ on₆ inv₆ => ?_))
  -- the copy of `intena` is what it has to be again
  have hcopy : (w₆.cpus h₆).intena = sie := (on₆.masked (by simp [Local.ofProc])).2
  refine (Logic.wlp_bind ..).mpr (wlp_swtchToCpu inv₆ on₆ fun sie' h₇ w₇ inv₇ on₇ => ?_)
  refine wlp_act inv₇ on₇ fun h₈ w₈ on₈ inv₈ => ?_
  refine hQ h₈ _ inv₈ ?_
  simp only [hcopy]
  exact on₈.withIntena

/-! ## yield and sleep -/

theorem wlp_yield {Q : Unit → H → World H → Prop} (inv : Inv S.img w)
    (on : On (.ofProc p [] sie) h w)
    (hQ : ∀ h' w', Inv S.img w' → On (.ofProc p [] sie) h' w' → Q () h' w') :
    (logic S).wlp (yield S.img) Q h w := by
  refine (Logic.wlp_bind ..).mpr (wlp_myproc inv on rfl fun h₁ w₁ inv₁ on₁ => ?_)
  refine (Logic.wlp_bind ..).mpr (wlp_acquire inv₁ on₁ rfl rfl (by simp [Local.ofProc])
    fun h₂ w₂ inv₂ on₂ => ?_)
  refine (Logic.wlp_bind ..).mpr (wlp_act inv₂ on₂ fun h₃ w₃ on₃ inv₃ => ?_)
  refine (Logic.wlp_bind ..).mpr (wlp_sched inv₃ (on₃.write _) fun h₄ w₄ inv₄ on₄ => ?_)
  refine wlp_release inv₄ on₄ rfl rfl (by simp [Local.ofProc]) rfl fun h₅ w₅ inv₅ on₅ => ?_
  exact hQ h₅ w₅ inv₅ (by simpa [Local.ofProc] using on₅)

theorem wlp_sleep {Q : Unit → H → World H → Prop} {chan : Option Chan} (inv : Inv S.img w)
    (on : On (.ofProc p [lk] sie) h w)
    (hQ : ∀ h' w', Inv S.img w' → On (.ofProc p [lk] sie) h' w' → Q () h' w') :
    (logic S).wlp (sleep S.img chan (some lk)) Q h w := by
  refine (Logic.wlp_bind ..).mpr (wlp_myproc inv on rfl fun h₁ w₁ inv₁ on₁ => ?_)
  by_cases hlk : lk = .proc p
  · subst hlk
    change (logic S).wlp (if Lock.proc p ≠ .proc p then _ else _) _ _ _
    rw [if_neg (by simp)]
    refine (Logic.wlp_bind ..).mpr (wlp_act inv₁ on₁ fun h₂ w₂ on₂ inv₂ => ?_)
    refine (Logic.wlp_bind ..).mpr (wlp_sched inv₂ (on₂.write _) fun h₃ w₃ inv₃ on₃ => ?_)
    refine (Logic.wlp_bind ..).mpr (wlp_act inv₃ on₃ fun h₄ w₄ on₄ inv₄ => ?_)
    rw [if_neg (by simp)]
    exact hQ h₄ _ inv₄ (on₄.write _)
  · change (logic S).wlp (if lk ≠ .proc p then _ else _) _ _ _
    rw [if_pos hlk]
    refine (Logic.wlp_bind ..).mpr (wlp_acquire inv₁ on₁ rfl rfl
      (by simpa [Local.ofProc] using Ne.symm hlk) fun h₂ w₂ inv₂ on₂ => ?_)
    refine (Logic.wlp_bind ..).mpr (wlp_release inv₂ on₂ rfl rfl (by simp [Local.ofProc]) rfl
      fun h₃ w₃ inv₃ on₃ => ?_)
    have on₃' : On (.ofProc p [.proc p] sie) h₃ w₃ := by
      simpa [Local.ofProc, Ne.symm hlk] using on₃
    refine (Logic.wlp_bind ..).mpr (wlp_act inv₃ on₃' fun h₄ w₄ on₄ inv₄ => ?_)
    refine (Logic.wlp_bind ..).mpr (wlp_sched inv₄ (on₄.write _) fun h₅ w₅ inv₅ on₅ => ?_)
    refine (Logic.wlp_bind ..).mpr (wlp_act inv₅ on₅ fun h₆ w₆ on₆ inv₆ => ?_)
    rw [if_pos hlk]
    refine (Logic.wlp_bind ..).mpr (wlp_release inv₆ (on₆.write _) rfl rfl
      (by simp [Local.ofProc]) rfl fun h₇ w₇ inv₇ on₇ => ?_)
    have on₇' : On (.ofProc p [] sie) h₇ w₇ := by simpa [Local.ofProc] using on₇
    exact wlp_acquire inv₇ on₇' rfl rfl (by simp [Local.ofProc]) fun h₈ w₈ inv₈ on₈ =>
      hQ h₈ w₈ inv₈ on₈

/-! ## wait_process -/

/-- What `wait_process` answers the process it belongs to. -/
theorem wlp_waitProcess {status : Bool} (inv : Inv S.img w) (on : On l h w)
    (hhalf : l.half = none) (hproc : l.proc = some p) :
    (logic S).wlp (waitProcess status) (fun answer _ w' =>
      Reports w.kernel.log (w'.kernel.serial p) status w'.kernel answer) h w := by
  refine (Logic.wlp_bind ..).mpr (wlp_perform rfl inv on
    fun h₁ w₁ r h₂ w₂ on₁ hlog₁ _ inv₂ hpost => ?_)
  obtain ⟨on₂, frame₂, rfl⟩ := hpost l on₁ hhalf
  refine (Logic.wlp_bind ..).mpr (wlp_perform rfl inv₂ on₂
    fun h₃ w₃ _ h₄ w₄ on₃ hlog₃ hneeds inv₄ hpost => ?_)
  obtain ⟨l', on', hpre⟩ := hneeds
  obtain ⟨on₄, frame₄, -⟩ := hpost l' on' hpre
  have hphase : ∀ k, (setPhase l.proc .scanning k).log = k.log := fun k => by
    rw [hproc]
    rfl
  refine (Logic.wlp_bind ..).mpr (wlp_write inv₄ on₄ hphase fun h₅ w₅ on₅ inv₅ hlog₅ => ?_)
  refine wlp_perform rfl inv₅ on₅ fun h₆ w₆ answer h₇ w₇ on₆ hlog₆ hneeds _ hpost => ?_
  obtain ⟨l₆, on₆', hpre⟩ := hneeds
  obtain ⟨q, _, hq, -, -, -, -, ⟨phase, hshadow⟩, reports⟩ := hpost l₆ on₆' hpre
  obtain rfl : p = q := Option.some.inj (hproc.symm.trans hq)
  have hserial : w₇.kernel.serial p = w₆.kernel.serial p := by
    rw [Kernel.serial, hshadow]
    rfl
  rw [hserial]
  exact reports.before (hlog₁.trans (frame₂.forever.log.trans (hlog₃.trans
    (frame₄.forever.log.trans (hlog₅.trans hlog₆)))))

/-! ## Calls and returns -/

/-- In `m` the process in `p` makes the call, and in `m'` it has returned from it. -/
def CallAnswers (S : Setting Unit) (p : Slot) (call : Code Unit α) (answer : α)
    (m m' : Config (Instr Unit) Unit (Ctx Unit) (World Unit)) : Prop :=
  m.world.cur () = .proc p ∧ m'.world.cur () = .proc p ∧
    ∃ rest, m.code () = call >>= rest ∧
      During (platform S.img S.quiet) (.proc p) () rest m call m' (.done answer)

def CallReturns (S : Setting Unit) (p : Slot) (call : Code Unit Unit)
    (m m' : Config (Instr Unit) Unit (Ctx Unit) (World Unit)) : Prop :=
  CallAnswers S p call () m m'

/-- The hart holds `lk`, and that is all it holds. -/
structure HoldsOnly (lk : Lock) (w : World Unit) : Prop where
  locked : ∀ lk', (w.lock lk').locked = some () ↔ lk' = lk
  noff : (w.cpus ()).noff = 1

variable {S : Setting Unit} {w w' : World Unit}
  {m m' : Config (Instr Unit) Unit (Ctx Unit) (World Unit)} {call : Code Unit Unit}

theorem CallAnswers.reaches {call : Code Unit α} {answer : α} {G : α → World Unit → Prop}
    (good : (logic S).Good m) (answers : CallAnswers S p call answer m m')
    (hwlp : (logic S).wlp call (fun answer _ w' => G answer w') () m.world) :
    (logic S).Good m' ∧ G answer m'.world := by
  obtain ⟨hcur, hcur', rest, hcode, during⟩ := answers
  have start : Logic.Underway (logic S) (.proc p) () rest (fun answer _ w' => G answer w') m call :=
    ⟨good, fun _ => ⟨hcode, hwlp⟩, fun hne => absurd hcur hne⟩
  have underway := start.during verified (fun _ => rfl) during
  exact ⟨underway.good, (underway.running hcur').2⟩

theorem CallReturns.reaches {G : World Unit → Prop} (good : (logic S).Good m)
    (returns : CallReturns S p call m m')
    (hwlp : (logic S).wlp call (fun _ _ w' => G w') () m.world) :
    (logic S).Good m' ∧ G m'.world :=
  CallAnswers.reaches (G := fun _ => G) good returns hwlp

/-- A hart that holds nothing, from what it has to show when it makes a call. -/
theorem On.bare_of_noff {l : Local Unit} (inv : Inv S.img w) (on : On l () w)
    (hhalf : l.half = none) (hcur : w.cur () = .proc p) (hnoff : (w.cpus ()).noff = 0) :
    On (.ofProc p [] (w.csr ()).sstatus.sie) () w := by
  have hzero : l.locks.length + l.depth = 0 := by
    have hsum := on.noff
    rw [hnoff] at hsum
    omega
  have hlocks : l.locks = [] := List.eq_nil_of_length_eq_zero (by omega)
  have heq : l = .ofProc p [] (w.csr ()).sstatus.sie := by
    have hctx : l.ctx = .proc p := on.ctx.symm.trans hcur
    have hproc : l.proc = some p := on.proc.symm.trans (inv.proc_cur hcur)
    have hsie : l.sie = (w.csr ()).sstatus.sie := (on.unmasked hzero).symm
    have hdepth : l.depth = 0 := by omega
    obtain ⟨ctx, locks, half, depth, sie, proc⟩ := l
    simp only at hctx hproc hsie hdepth hlocks hhalf
    subst hctx hproc hsie hdepth hlocks hhalf
    rfl
  exact heq ▸ on

theorem On.only_of_holds {l : Local Unit} (inv : Inv S.img w) (on : On l () w)
    (hhalf : l.half = none) (hcur : w.cur () = .proc p) (holds : HoldsOnly lk w) :
    On (.ofProc p [lk] (w.cpus ()).intena) () w := by
  have hmem : ∀ lk', lk' ∈ l.locks ↔ lk' = lk := fun lk' => by
    rw [← holds.locked lk', on.held, Local.held, hhalf]
    simp
  have hlocks : l.locks = [lk] := by
    have hperm := (List.perm_ext_iff_of_nodup on.nodup (List.nodup_singleton lk)).mpr
      fun lk' => (hmem lk').trans List.mem_singleton.symm
    exact List.perm_singleton.mp hperm
  have heq : l = .ofProc p [lk] (w.cpus ()).intena := by
    have hctx : l.ctx = .proc p := on.ctx.symm.trans hcur
    have hproc : l.proc = some p := on.proc.symm.trans (inv.proc_cur hcur)
    have hsie : l.sie = (w.cpus ()).intena := (on.masked (by simp [hlocks])).2.symm
    have hdepth : l.depth = 0 := by
      have hsum := on.noff
      rw [holds.noff, hlocks] at hsum
      simp only [List.length_singleton] at hsum
      omega
    obtain ⟨ctx, locks, half, depth, sie, proc⟩ := l
    simp only at hctx hproc hsie hdepth hlocks hhalf
    subst hctx hproc hsie hdepth hlocks hhalf
    rfl
  exact heq ▸ on

theorem On.holdsOnly {sie : Bool} (on : On (.ofProc p [lk] sie) () w) : HoldsOnly lk w where
  locked lk' := by
    rw [on.held]
    simp [Local.held, Local.ofProc]
  noff := on.noff

/-- What the calls made in the state `m` give back of the interrupt state. -/
structure GivesBack (S : Setting Unit)
    (m : Config (Instr Unit) Unit (Ctx Unit) (World Unit)) : Prop where
  yielded : ∀ {p m'}, CallReturns S p (yield S.img) m m' → (m.world.cpus ()).noff = 0 →
    (m'.world.cpus ()).noff = 0 ∧
      (m'.world.csr ()).sstatus.sie = (m.world.csr ()).sstatus.sie
  acquired : ∀ {p lk m'}, CallReturns S p (acquire lk) m m' → (m.world.cpus ()).noff = 0 →
    HoldsOnly lk m'.world ∧ (m'.world.cpus ()).intena = (m.world.csr ()).sstatus.sie
  slept : ∀ {p chan lk m'}, CallReturns S p (sleep S.img chan (some lk)) m m' →
    HoldsOnly lk m.world →
    HoldsOnly lk m'.world ∧ (m'.world.csr ()).sstatus.sie = false ∧
      (m'.world.cpus ()).intena = (m.world.cpus ()).intena
  /-- A release after the sleep brings `SIE` back. -/
  released : ∀ {p chan lk m' m''}, CallReturns S p (sleep S.img chan (some lk)) m m' →
    HoldsOnly lk m.world → CallReturns S p (release lk) m' m'' →
    (m''.world.cpus ()).noff = 0 ∧
      (m''.world.csr ()).sstatus.sie = (m.world.cpus ()).intena

theorem CallReturns.slept {chan : Option Chan} (good : (logic S).Good m)
    (returns : CallReturns S p (sleep S.img chan (some lk)) m m') (holds : HoldsOnly lk m.world) :
    (logic S).Good m' ∧ On (.ofProc p [lk] (m.world.cpus ()).intena) () m'.world := by
  obtain ⟨hcur, -, rest, hcode, -⟩ := id returns
  obtain ⟨l, on, hhalf⟩ := good.called hcode rfl
  have on' := on.only_of_holds good.inv hhalf hcur holds
  exact returns.reaches good (wlp_sleep good.inv on' fun _ _ _ on'' => on'')

theorem gives_back (good : (logic S).Good m) : GivesBack S m where
  yielded {p m'} returns hnoff := by
    obtain ⟨hcur, -, rest, hcode, -⟩ := id returns
    obtain ⟨l, on, hhalf⟩ := good.called hcode rfl
    have on' := on.bare_of_noff good.inv hhalf hcur hnoff
    obtain ⟨-, on''⟩ := returns.reaches
      (G := On (.ofProc p [] (m.world.csr ()).sstatus.sie) ()) good
      (wlp_yield good.inv on' fun _ _ _ on'' => on'')
    exact ⟨on''.noff, on''.unmasked rfl⟩
  acquired {p lk m'} returns hnoff := by
    obtain ⟨hcur, -, rest, hcode, -⟩ := id returns
    obtain ⟨l, on, hhalf, -⟩ := good.called hcode rfl
    have on' := on.bare_of_noff good.inv hhalf hcur hnoff
    obtain ⟨-, on''⟩ := returns.reaches
      (G := On (.ofProc p [lk] (m.world.csr ()).sstatus.sie) ()) good
      (wlp_acquire good.inv on' rfl rfl (by simp [Local.ofProc]) fun _ _ _ on'' => on'')
    exact ⟨on''.holdsOnly, (on''.masked (by simp [Local.ofProc])).2⟩
  slept {p chan lk m'} returns holds := by
    obtain ⟨-, on⟩ := returns.slept good holds
    obtain ⟨hsie, hintena⟩ := on.masked (by simp [Local.ofProc])
    exact ⟨on.holdsOnly, hsie, hintena⟩
  released {p chan lk m' m''} hslept holds returns := by
    obtain ⟨good', on⟩ := hslept.slept good holds
    obtain ⟨-, on''⟩ := returns.reaches (G := On (.ofProc p [] (m.world.cpus ()).intena) ())
      good' (wlp_release good'.inv on rfl rfl (by simp [Local.ofProc]) rfl fun _ _ _ on'' => by
        simpa [Local.ofProc] using on'')
    exact ⟨on''.noff, on''.unmasked rfl⟩

variable {entries : List Word} {memory : Memory}

/-- `yield` and `sleep` give the interrupt state back. -/
theorem calls_give_back (reaches : Reaches S entries memory m) : GivesBack S m :=
  gives_back reaches.good

/-- The first process of `main` calls `yield` in its first turn. -/
theorem leads_yieldCall : ∃ memory m rest,
    Reaches sampleSetting [sampleEntry, sampleEntry] memory m ∧
    m.world.cur () = .proc slot₁ ∧ (m.world.cpus ()).noff = 0 ∧
    m.code () = yield sampleImage >>= rest := by
  obtain ⟨memory, w, k, saved, next, hclient, idles, -⟩ := leads_firstClient false
  have hcalled : Reachable (platform sampleImage false)
      (lone w (Program.perform (.client []) >>= next) saved)
      (lone w (yield sampleImage >>= fun _ => (pure [] : Code Unit _) >>= fun held =>
        Program.perform (.client held) >>= next) saved) := by
    simpa only [takeAction, if_true, bind_assoc] using
      leads_client .yield
  exact ⟨memory, _, _, hclient.trans hcalled, idles.cur, idles.rests.noff, rfl⟩

theorem calls_give_back_sample : ∃ memory m rest,
    Reaches sampleSetting [sampleEntry, sampleEntry] memory m ∧
    m.code () = yield sampleImage >>= rest ∧ GivesBack sampleSetting m := by
  obtain ⟨memory, m, rest, reaches, -, -, hcode⟩ := leads_yieldCall
  exact ⟨memory, m, rest, reaches, hcode, calls_give_back reaches⟩

end Xv6Kernel.Process
