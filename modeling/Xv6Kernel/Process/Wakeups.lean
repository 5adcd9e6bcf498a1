import Xv6Kernel.Mm.AllocatorRuns
import Xv6Kernel.Process.Sleepers

/-!
# No wakeup is lost

The sleepers and wakers keep the invariant of the protocol: one specification for each
piece of code, from the steps of the locks up to the tasks of a process.
-/

namespace Xv6Kernel.Process

open Xv6Kernel.Foundation Xv6Kernel.Mm

variable {H : Type} [DecidableEq H] {α β : Type}

namespace Sleepers

variable {img : Image} {T : Topic} {h : H} {a a' : Sleepers H} {p q : Slot} {lk : Lock}

/-! ## The logic -/

/-- `sleep` returns with the lock of the condition held and `chan` cleared. -/
def Returned (T : Topic) (h : H) (v : View H) : Prop :=
  ∃ p, v.Awake p h ∧ v.Holds T h ∧ v.chan p = none

def logic (img : Image) (T : Topic) : Logic (platform (H := H) img T) where
  Inv a := a.view.Inv T
  Rely h a a' := a.view.Rely T h a'.view
  Keep c a a' := a.view.Keep c a'.view
  Resume c h a :=
    match c with
    | .proc p => a.view.Entered p h
    | .cpu g => g = h ∧ ∃ p, a.view.Back T p h
  Preempt _ _ _ _ := False
  Handoff _ _ _ _ := True
  pre i h a :=
    match i with
    | .code .scheduling => a.view.cur h = .cpu h
    | .await => ∃ p, a.view.Awake p h ∧ a.view.Holds T h
    | .slept => Returned T h a.view
    | .more => ∃ p, a.view.Awake p h
    | _ => True
  post i h a _ h' a' :=
    match i with
    | .code (.acquire lk) =>
        h' = h ∧ ∃ v, a.view.Rely T h v ∧ v.Inv T ∧ v.owner lk = none ∧ a'.view = v.take h lk
    | .code .wfi | .slept => h' = h ∧ a.view.Rely T h a'.view
    | .await => ∃ p, a'.view.Awake p h' ∧ a'.view.Holds T h'
    | _ => False
  MayHalt _ := True
  Allowed _ _ _ := True
  keep_trans := View.Keep.trans

theorem env_rely {h' : H} (env : (logic img T).Env h a h' a') :
    h' = h ∧ a.view.Rely T h a'.view := by
  induction env with
  | refl => exact ⟨rfl, .refl⟩
  | rely _ others _ ih =>
    obtain ⟨rfl, before⟩ := ih
    exact ⟨rfl, before.trans others⟩
  | preempt _ trap => exact trap.elim

/-- From `P` the program leads to `Q`, perhaps on another hart. -/
def Spec (img : Image) (T : Topic) (P : H → View H → Prop) (c : Program (SleepInstr H) α)
    (Q : α → H → View H → Prop) : Prop :=
  ∀ h a, a.view.Inv T → P h a.view →
    (logic img T).wp c (fun value h' a' => Q value h' a'.view) h a

def Steady (T : Topic) (P : H → View H → Prop) : Prop :=
  ∀ {h v v'}, P h v → View.Rely T h v v' → P h v'

/-- The same of code of the kernel. -/
abbrev Runs (img : Image) (T : Topic) (P : H → View H → Prop) (c : Code H α)
    (Q : α → H → View H → Prop) : Prop :=
  Spec img T P (c.translate .code) Q

section Rules

variable {P P' : H → View H → Prop} {Q Q' : α → H → View H → Prop}
  {R : β → H → View H → Prop}

theorem Spec.done {value : α} (hP : ∀ h v, P h v → Q value h v) : Spec img T P (pure value) Q :=
  fun _ _ _ hp => hP _ _ hp

theorem Spec.bind {c : Program (SleepInstr H) α} {rest : α → Program (SleepInstr H) β}
    (hc : Spec img T P c Q) (hrest : ∀ value, Spec img T (Q value) (rest value) R) :
    Spec img T P (c >>= rest) R := by
  intro h a inv hp
  rw [Logic.wp_bind]
  exact Logic.wp_mono inv (fun value h' a' inv' hq => hrest value h' a' inv' hq) (hc h a inv hp)

theorem Spec.mono {c : Program (SleepInstr H) α} (hP : ∀ h v, P h v → P' h v)
    (hQ : ∀ value h v, Q value h v → Q' value h v) (hc : Spec img T P' c Q) :
    Spec img T P c Q' :=
  fun h a inv hp => Logic.wp_mono inv (fun value h' _ _ hq => hQ value h' _ hq)
    (hc h a inv (hP h _ hp))

theorem Spec.ite {p : Prop} [Decidable p] {c c' : Program (SleepInstr H) α}
    (hc : p → Spec img T P c Q) (hc' : ¬ p → Spec img T P c' Q) :
    Spec img T P (if p then c else c') Q := by
  by_cases hp : p
  · rw [if_pos hp]
    exact hc hp
  · rw [if_neg hp]
    exact hc' hp

theorem Spec.known {p : Prop} {c : Program (SleepInstr H) α} (hc : p → Spec img T P c Q) :
    Spec img T (fun h v => P h v ∧ p) c Q :=
  fun h a inv hp => hc hp.2 h a inv hp.1

theorem Spec.step {i : SleepInstr H α} {f : H → Sleepers H → α × Sleepers H}
    (heffect : effect img T i = .atomic f) (hP : Steady T P)
    (hf : ∀ h a, a.view.Inv T → P h a.view →
      a.view.Moves T h (f h a).2.view ∧ Q (f h a).1 h (f h a).2.view) :
    Spec img T P (.perform i) Q := by
  intro h a _ hp h' a' env inv'
  obtain ⟨rfl, rely⟩ := env_rely env
  obtain ⟨moves, hq⟩ := hf h' a' inv' (hP hp rely)
  have hdoes : (platform img T).effect i = .atomic f := heffect
  unfold Logic.Does
  rw [hdoes]
  exact ⟨⟨moves.inv, trivial, moves.cur, moves.rely, moves.keep⟩, hq⟩

theorem Runs.bind {c : Code H α} {rest : α → Code H β} (hc : Runs img T P c Q)
    (hrest : ∀ value, Runs img T (Q value) (rest value) R) : Runs img T P (c >>= rest) R := by
  rw [Runs, Program.translate_bind]
  exact Spec.bind hc hrest

theorem Runs.ite {p : Prop} [Decidable p] {c c' : Code H α} (hc : p → Runs img T P c Q)
    (hc' : ¬ p → Runs img T P c' Q) : Runs img T P (if p then c else c') Q := by
  by_cases hp : p
  · rw [if_pos hp]
    exact hc hp
  · rw [if_neg hp]
    exact hc' hp

theorem Runs.halts {message : String} {rest : α → Code H β} :
    Runs img T P (panic message >>= rest) R :=
  fun _ _ _ _ _ _ _ _ => trivial

theorem Runs.act {f : H → World H → α × World H} (hP : Steady T P)
    (hf : ∀ h (a : Sleepers H), a.view.Inv T → P h a.view →
      a.view.Moves T h (a.run (f h a.world).2).view ∧
        Q (f h a.world).1 h (a.run (f h a.world).2).view) :
    Runs img T P (Process.act f) Q :=
  Spec.step rfl hP hf

theorem Runs.idle {f : H → World H → α × World H} (hP : Steady T P)
    (hf : ∀ h (a : Sleepers H), (a.run (f h a.world).2).view = a.view) :
    Runs img T P (Process.act f) fun _ => P :=
  Runs.act hP fun h a inv hp => by
    rw [hf]
    exact ⟨.refl inv, hp⟩

theorem Runs.look {g : H → World H → α} (hP : Steady T P)
    (hg : ∀ h (a : Sleepers H), a.view.Inv T → P h a.view → Q (g h a.world) h a.view) :
    Runs img T P (Process.act fun h w => (g h w, w)) Q :=
  Runs.act hP fun h a inv hp => ⟨.refl inv, hg h a inv hp⟩

theorem Runs.choose {γ : Type} (hP : Steady T P) :
    Runs img T P (Process.choose γ) fun _ => P := by
  intro h a _ hp h' a' env _
  obtain ⟨rfl, rely⟩ := env_rely env
  exact fun _ => hP hp rely

theorem Runs.myproc {P : H → View H → Prop} {Q : Option Slot → H → View H → Prop}
    (hP : Steady T P) (hQ : ∀ h v, P h v → Q (v.on h) h v) : Runs img T P Process.myproc Q :=
  Spec.step rfl hP fun h a inv hp => by
    rw [view_noted]
    exact ⟨.refl inv, hQ h a.view hp⟩

theorem Runs.release {P : H → View H → Prop} {Q : Unit → H → View H → Prop} (hP : Steady T P)
    (hQ : ∀ h v, View.Inv T v → P h v → View.Gives T h lk v ∧ Q () h (v.drop lk)) :
    Runs img T P (Process.release lk) Q :=
  Spec.step rfl hP fun h a inv hp => by
    rw [view_dropped]
    obtain ⟨gives, hq⟩ := hQ h a.view inv hp
    exact ⟨View.moves_drop inv gives, hq⟩

theorem Runs.acquire {P : H → View H → Prop} {Q : Unit → H → View H → Prop} (hP : Steady T P)
    (hQ : ∀ h v, View.Inv T v → P h v → v.owner lk = none → Q () h (v.take h lk)) :
    Runs img T P (Process.acquire lk) Q := by
  intro h a _ hp h' a' env _
  obtain ⟨rfl, rely⟩ := env_rely env
  refine ⟨trivial, fun _ h₂ a₂ _ hpost => ?_⟩
  obtain ⟨rfl, v, rely', inv, hfree, hview⟩ := hpost
  have hq := hQ h₂ v inv (hP (hP hp rely) rely') hfree
  rw [← hview] at hq
  exact hq

/-- The lock was free at one point after `v₀`, and was taken there. -/
def Took (T : Topic) (lk : Lock) (h₀ : H) (v₀ : View H) (h : H) (v' : View H) : Prop :=
  h = h₀ ∧ ∃ v, v₀.Rely T h v ∧ v.Inv T ∧ v.owner lk = none ∧ v' = v.take h lk

omit [DecidableEq H] in
theorem steady_rely (h₀ : H) (v₀ : View H) :
    Steady T fun h v => h = h₀ ∧ v₀.Rely T h v :=
  fun hp rely => ⟨hp.1, hp.2.trans rely⟩

theorem takeBody_runs (lk : Lock) (h₀ : H) (v₀ : View H) :
    Runs img T (fun h v => h = h₀ ∧ v₀.Rely T h v) (takeBody lk)
      fun _ => Took T lk h₀ v₀ := by
  have htry : Runs img T (fun h v => h = h₀ ∧ v₀.Rely T h v) (tryTake lk) fun taken h v =>
      if taken then Took T lk h₀ v₀ h v else h = h₀ ∧ v₀.Rely T h v := by
    refine Runs.act (steady_rely h₀ v₀) fun h a inv hp => ?_
    cases hlock : (a.world.lock lk).locked with
    | none =>
      simp only [if_true, view_taken]
      exact ⟨View.moves_take inv hlock, hp.1, a.view, hp.2, inv, hlock, rfl⟩
    | some g => exact ⟨.refl inv, hp⟩
  refine htry.bind fun taken => ?_
  cases taken with
  | true => exact Spec.done fun _ _ => id
  | false =>
    exact Runs.acquire (steady_rely h₀ v₀) fun h v inv hp hfree =>
      ⟨hp.1, v, hp.2, inv, hfree, rfl⟩

end Rules

/-! ## The scheduler -/

section Kernel

section Steady

omit [DecidableEq H]

theorem steady_entered : Steady T (View.Entered (H := H) p) := fun hp rely => hp.kept rely
theorem steady_back : Steady T (View.Back (H := H) T p) := fun hp rely => hp.kept rely
theorem steady_entering : Steady T (View.Entering (H := H) p) := fun hp rely => hp.kept rely
theorem steady_leaving : Steady T (View.Leaving (H := H) T p) := fun hp rely => hp.kept rely
theorem steady_awake : Steady T (View.Awake (H := H) p) := fun hp rely => hp.kept rely

theorem Steady.and {P P' : H → View H → Prop} (hP : Steady T P) (hP' : Steady T P') :
    Steady T fun h v => P h v ∧ P' h v :=
  fun hp rely => ⟨hP hp.1 rely, hP' hp.2 rely⟩

theorem steady_at (c : H) : Steady (H := H) T fun h _ => c = h := fun hp _ => hp

theorem steady_home : Steady (H := H) T fun h v => v.cur h = .cpu h :=
  fun hp rely => rely.cur.trans hp

end Steady

theorem runs_mycpu {P : H → View H → Prop} (hP : Steady T P) :
    Runs img T P (mycpu : Code H H) fun c h v => P h v ∧ c = h :=
  Runs.look hP fun _ _ _ hp => ⟨hp, rfl⟩

theorem runs_holding {P : H → View H → Prop} (hP : Steady T P) :
    Runs img T P (holding lk : Code H Bool) fun _ => P := by
  refine (Runs.idle hP fun _ _ => rfl).bind fun set => Runs.ite (fun _ => ?_) fun _ =>
    Spec.done fun _ _ => id
  exact (Runs.idle hP fun _ _ => rfl).bind fun _ => (Runs.idle hP fun _ _ => rfl).bind fun _ =>
    Spec.done fun _ _ => id

/-- A process leaves its hart for the scheduler and is entered again, on any hart. -/
theorem runs_swtchToCpu :
    Runs img T (View.Leaving T p) (swtchToCpu img p : Code H Unit) fun _ => View.Entered p := by
  refine (runs_mycpu steady_leaving).bind fun c =>
    (Runs.choose (steady_leaving.and (steady_at c))).bind fun regs => ?_
  intro h a _ hp h' a' env inv
  obtain ⟨rfl, rely⟩ := env_rely env
  obtain ⟨leaving, rfl⟩ := (steady_leaving.and (steady_at c)) hp rely
  have hinv := leaving.inv inv
  have hback := leaving.back inv
  refine ⟨⟨trivial, leaving.cur, fun g hg => ?_, ?_, trivial, rfl, fun g hne => ?_,
    fun c' _ => ?_, rfl, p, ?_⟩, fun h₂ a₂ _ resume _ _ => resume⟩
  · obtain rfl := inv.home hg
    cases leaving.cur.symm.trans hg
  all_goals
    simp only [logic, view_transfer]
  · exact hinv
  · exact leaving.rely hne
  · exact View.keep_switch c'
  · exact hback

/-- A scheduler enters a process and is back later on its own hart. -/
theorem runs_swtchToProc :
    Runs img T (View.Entering p) (swtchToProc p : Code H Unit) fun _ => View.Back T p := by
  refine (runs_mycpu steady_entering).bind fun c =>
    (Runs.choose (steady_entering.and (steady_at c))).bind fun regs => ?_
  intro h a _ hp h' a' env inv
  obtain ⟨rfl, rely⟩ := env_rely env
  obtain ⟨entering, rfl⟩ := (steady_entering.and (steady_at c)) hp rely
  have hinv := entering.inv inv
  have hentered := entering.entered
  refine ⟨⟨trivial, entering.cur, entering.gone, ?_, trivial, rfl, fun g hne => ?_,
    fun c' _ => ?_, ?_⟩, fun h₂ a₂ _ resume keep _ => ?_⟩
  all_goals
    try simp only [logic, view_transfer]
  · exact hinv
  · exact entering.rely hne
  · exact View.keep_switch c'
  · exact hentered
  · obtain ⟨rfl, q, back⟩ := resume
    have hon : a₂.view.on c = (a'.run (transfer (.cpu c) (.proc p) regs c a'.world)).view.on c :=
      keep
    rw [view_transfer, back.on] at hon
    obtain rfl : q = p := Option.some.inj (hon.trans entering.on)
    exact back

/-- `sched` is called with the lock of the process held, and returns with it. -/
theorem runs_sched : Runs img T (View.Leaving T p) (sched img : Code H Unit) fun _ =>
    View.Entered p := by
  have hmyproc : Runs img T (View.Leaving T p) (myproc : Code H (Option Slot)) fun me h v =>
      View.Leaving T p h v ∧ me = some p :=
    Runs.myproc steady_leaving fun h v hp => ⟨hp, hp.on⟩
  refine hmyproc.bind fun me => Spec.known ?_
  rintro rfl
  refine (runs_holding steady_leaving).bind fun mine => Runs.ite (fun _ => Runs.halts) fun _ => ?_
  refine (Runs.idle steady_leaving fun _ _ => rfl).bind fun noff =>
    Runs.ite (fun _ => Runs.halts) fun _ => ?_
  refine (Runs.idle steady_leaving fun _ _ => rfl).bind fun state =>
    Runs.ite (fun _ => Runs.halts) fun _ => ?_
  refine (Runs.idle steady_leaving fun _ _ => rfl).bind fun sie =>
    Runs.ite (fun _ => Runs.halts) fun _ => ?_
  refine (Runs.idle steady_leaving fun _ _ => rfl).bind fun intena => runs_swtchToCpu.bind fun _ =>
    Runs.idle steady_entered fun _ _ => view_cpu fun _ => rfl

/-- A slot whose lock the scheduler holds. -/
structure Looking (T : Topic) (p : Slot) (h : H) (v : View H) : Prop where
  cur : v.cur h = .cpu h
  held : v.owner (.proc p) = some h
  settled : v.Settled T p

omit [DecidableEq H] in
theorem steady_looking : Steady T (Looking (H := H) T p) := fun hp rely =>
  ⟨rely.cur.trans hp.cur, (rely.owner _).mpr hp.held, (rely.slot p hp.held).settled hp.settled⟩

omit [DecidableEq H] in
/-- A slot that a scheduler holds and that some hart runs is running. -/
theorem Looking.running {v : View H} {h' : H} (looking : Looking T p h v) (inv : v.Inv T)
    (hcur : v.cur h' = .proc p) : v.state p = .running := by
  refine (inv.running hcur).resolve_right fun hheld => ?_
  obtain rfl := Option.some.inj (looking.held.symm.trans hheld)
  cases looking.cur.symm.trans hcur

theorem runs_release_looking : Runs img T (Looking T p) (release (.proc p) : Code H Unit)
    fun _ h v => v.cur h = .cpu h :=
  Runs.release steady_looking fun h v inv looking => ⟨⟨looking.held,
    fun hlk => absurd hlk.symm (T.apart p), fun hlk => absurd hlk.symm (T.apart p),
    fun q hq => by cases hq; exact looking.settled,
    fun q hq h' hcur => by cases hq; exact looking.running inv hcur⟩, looking.cur⟩

/-- A runnable slot that the scheduler holds is entered. -/
theorem runs_dispatch :
    Runs img T (fun h v => Looking T p h v ∧ v.state p = .runnable)
      (act fun h w => ((), { w.setCpu h (fun c => { c with proc := some p }) with
        kernel := w.kernel.setProc p fun s => { s with state := .running } }) : Code H Unit)
      fun _ => View.Entering p := by
  refine Runs.act (fun hp rely => ⟨steady_looking hp.1 rely,
    (rely.slot p hp.1.held).state.trans hp.2⟩) fun h a inv hp => ?_
  obtain ⟨looking, hstate⟩ := hp
  have hgone : ∀ h', a.view.cur h' ≠ .proc p := by
    intro h' hcur
    cases hstate.symm.trans (looking.running inv hcur)
  have hunarmed : ¬ a.view.armed p := by
    intro harmed
    rcases looking.settled harmed with hsleep | ⟨g, hg, -⟩
    · cases hstate.symm.trans hsleep.1
    · exact hgone g hg
  have hview : (a.run { a.world.setCpu h (fun c => { c with proc := some p }) with
      kernel := a.world.kernel.setProc p fun s => { s with state := .running } }).view =
        (a.view.setOn h (some p)).touch p .running (a.view.chan p) (a.view.armed p) := by
    rw [← view_setOn]
    exact view_setProc (a := a.run (a.world.setCpu h fun c => { c with proc := some p }))
  have hon : a.view.Moves T h (a.view.setOn h (some p)) := View.moves_setOn inv looking.cur
  have htouch : (a.view.setOn h (some p)).Moves T h
      ((a.view.setOn h (some p)).touch p .running (a.view.chan p) (a.view.armed p)) :=
    View.moves_touch hon.inv looking.held (fun h' hcur => absurd hcur (hgone h')) id
      fun h => nomatch h
  obtain ⟨hself, -, hiff⟩ := View.touch_self (a.view.setOn h (some p)) .running
    (a.view.chan p) (a.view.armed p) p
  rw [hview]
  exact ⟨hon.trans htouch, looking.cur, Function.update_self .., looking.held, hself,
    fun harmed => hunarmed (hiff.mp harmed), hgone⟩

theorem runs_schedScan (ps : List Slot) (found : Bool) :
    Runs img T (fun h v => v.cur h = .cpu h) (schedScan ps found : Code H Bool)
      fun _ h v => v.cur h = .cpu h := by
  induction ps generalizing found with
  | nil => exact Spec.done fun _ _ => id
  | cons p rest ih =>
    have htake : Runs img T (fun h v => v.cur h = .cpu h)
        (acquire (.proc p) : Code H Unit) fun _ => Looking T p :=
      Runs.acquire steady_home fun h v inv hcur hfree =>
        ⟨hcur, View.take_self, View.settled_take hfree (inv.settled hfree)⟩
    have hread : Runs img T (Looking T p) (readProc p (·.state) : Code H ProcState)
        fun state h v => Looking T p h v ∧ v.state p = state :=
      Runs.look steady_looking fun _ _ _ looking => ⟨looking, rfl⟩
    refine htake.bind fun _ => hread.bind fun state => ?_
    by_cases hstate : state = .runnable
    · subst hstate
      rw [if_pos rfl]
      refine runs_dispatch.bind fun _ => runs_swtchToProc.bind fun _ => ?_
      have hleave : Runs img T (View.Back T p) (writeCpu fun c => { c with proc := none } :
          Code H Unit) fun _ => Looking T p :=
        Runs.act steady_back fun h a inv back => by
          have hmoves : a.view.Moves T h (a.view.setOn h none) := View.moves_setOn inv back.cur
          rw [view_setOn]
          exact ⟨hmoves, back.cur, back.held, back.settled⟩
      exact hleave.bind fun _ => runs_release_looking.bind fun _ => ih true
    · rw [if_neg hstate]
      refine Runs.bind (Spec.mono (fun _ _ hp => hp.1) (fun _ _ _ hq => hq)
        runs_release_looking) fun _ => ih found

theorem view_setSie {sie : Bool} : (a.run (a.world.setSie h sie)).view = a.view := rfl

theorem runs_scheduling : Runs img T (fun h v => v.cur h = .cpu h)
    (.perform .scheduling : Code H Empty) fun value _ _ => value.elim := by
  intro h a _ hcur h' a' env _
  obtain ⟨rfl, rely⟩ := env_rely env
  exact ⟨steady_home hcur rely, fun value => value.elim⟩

theorem schedulingBody_runs :
    Runs img T (fun h v => v.cur h = .cpu h) (schedulingBody : Code H Empty)
      fun value _ _ => value.elim := by
  refine (Runs.idle steady_home fun _ _ => view_setSie).bind fun _ =>
    (Runs.idle steady_home fun _ _ => view_setSie).bind fun _ =>
      (runs_schedScan slots false).bind fun found => Runs.ite (fun _ => ?_) fun _ => runs_scheduling
  refine Runs.bind (Q := fun _ h v => v.cur h = .cpu h) ?_ fun _ => runs_scheduling
  intro h a _ hcur h' a' env _
  obtain ⟨rfl, rely⟩ := env_rely env
  refine ⟨trivial, fun _ h₂ a₂ _ hpost => ?_⟩
  obtain ⟨rfl, rely₂⟩ := hpost
  exact steady_home (steady_home hcur rely) rely₂

/-! ## yield and sleep -/

theorem runs_acquire_own :
    Runs img T (View.Awake p) (acquire (.proc p) : Code H Unit) fun _ => View.Entered p :=
  Runs.acquire steady_awake fun _ _ _ awake _ =>
    ⟨awake.cur, awake.on, View.take_self, awake.state, awake.unarmed⟩

theorem runs_release_own :
    Runs img T (View.Entered p) (release (.proc p) : Code H Unit) fun _ => View.Awake p :=
  Runs.release steady_entered fun _ _ _ entered => ⟨entered.gives, entered.cur, entered.on,
    entered.state, entered.unarmed⟩

theorem runs_yield : Runs img T (View.Awake p) (yield img : Code H Unit) fun _ => View.Awake p := by
  have hmyproc : Runs img T (View.Awake p) (myproc : Code H (Option Slot)) fun me h v =>
      View.Awake p h v ∧ me = some p :=
    Runs.myproc steady_awake fun h v hp => ⟨hp, hp.on⟩
  refine hmyproc.bind fun me => Spec.known ?_
  rintro rfl
  have hwrite : Runs img T (View.Entered p) (writeProc p fun s => { s with state := .runnable } :
      Code H Unit) fun _ => View.Leaving T p :=
    Runs.act steady_entered fun h a inv entered => by
      rw [view_setProc]
      refine ⟨View.moves_touch inv entered.held (fun h' hcur => inv.apart hcur entered.cur) id
        (fun h => nomatch h), entered.cur, entered.on, entered.held, fun harmed => ?_⟩
      exact absurd ((View.touch_self a.view _ _ _ p).2.2.mp harmed) entered.unarmed
  exact runs_acquire_own.bind fun _ => hwrite.bind fun _ => runs_sched.bind fun _ =>
    runs_release_own

/-- An armed process on its way to sleep, with its own lock held. -/
structure Going (p : Slot) (h : H) (v : View H) : Prop where
  cur : v.cur h = .proc p
  on : v.on h = some p
  state : v.state p = .running
  armed : v.armed p
  held : v.owner (.proc p) = some h

omit [DecidableEq H] in
theorem steady_going : Steady T (Going (H := H) p) := fun hp rely =>
  ⟨rely.cur.trans hp.cur, rely.on.trans hp.on, (rely.own p hp.cur).state hp.state,
    (rely.own p hp.cur).armed hp.state hp.armed, (rely.owner _).mpr hp.held⟩

omit [DecidableEq H] in
theorem steady_deciding : Steady T (View.Deciding (H := H) T p) := fun hp rely => hp.kept rely

/-- The process that called `sleep` takes its own lock before it gives up the other. -/
theorem runs_takeOwn : Runs img T (View.Deciding T p) (acquire (.proc p) : Code H Unit)
    fun _ h v => View.Deciding T p h v ∧ v.owner (.proc p) = some h :=
  Runs.acquire steady_deciding fun _ _ _ hp hfree =>
    ⟨⟨hp.cur, hp.on, hp.state, hp.armed, View.take_some hfree hp.held, hp.cond⟩, View.take_self⟩

theorem runs_giveUp : Runs img T (fun h v => View.Deciding T p h v ∧
    v.owner (.proc p) = some h) (release T.lk : Code H Unit) fun _ => Going p := by
  refine Runs.release (fun hp rely => ⟨steady_deciding hp.1 rely,
    (rely.owner _).mpr hp.2⟩) fun h v inv hp => ?_
  obtain ⟨deciding, hown⟩ := hp
  have hslot : ∀ q, T.lk ≠ .proc q := T.apart
  refine ⟨⟨deciding.held, fun _ _ _ => deciding.cond, fun _ q hq _ => ?_,
    fun q hq => absurd hq (hslot q), fun q hq => absurd hq (hslot q)⟩,
    deciding.cur, deciding.on, deciding.state, deciding.armed, ?_⟩
  · have heq : Ctx.proc p = Ctx.proc q := deciding.cur.symm.trans hq
    cases heq
    exact hown
  · exact (View.drop_other (Ne.symm (hslot p))).trans hown

/-- `sleep` by a process that found the condition false. -/
theorem runs_sleep : Runs img T (View.Deciding T p)
    (sleep img T.chan (some T.lk) : Code H Unit) fun _ => Returned T := by
  have hmyproc : Runs img T (View.Deciding T p) (myproc : Code H (Option Slot)) fun me h v =>
      View.Deciding T p h v ∧ me = some p :=
    Runs.myproc steady_deciding fun h v hp => ⟨hp, hp.on⟩
  refine hmyproc.bind fun me => Spec.known ?_
  rintro rfl
  have hsleeping : Runs img T (Going p) (writeProc p fun s =>
      { s with chan := T.chan, state := .sleeping } : Code H Unit) fun _ => View.Leaving T p :=
    Runs.act steady_going fun h a inv going => by
      rw [view_setProc]
      obtain ⟨hstate, hchan, -⟩ := View.touch_self a.view .sleeping T.chan (a.view.armed p) p
      exact ⟨View.moves_touch inv going.held (fun h' hcur => inv.apart hcur going.cur) id
        (fun _ _ => going.armed), going.cur, going.on, going.held, fun _ => ⟨hstate, hchan⟩⟩
  have hawake : Runs img T (View.Entered p) (writeProc p fun s => { s with chan := none } :
      Code H Unit) fun _ h v => View.Entered p h v ∧ v.chan p = none :=
    Runs.act steady_entered fun h a inv entered => by
      have hrunning : (a.world.kernel.proc p).state = .running := entered.state
      rw [view_setProc]
      simp only [hrunning]
      obtain ⟨hstate, hchan, hiff⟩ := View.touch_self a.view .running none (a.view.armed p) p
      exact ⟨View.moves_touch inv entered.held (fun h' hcur => inv.apart hcur entered.cur) id
        (fun h => nomatch h), ⟨entered.cur, entered.on, entered.held, hstate,
          fun harmed => entered.unarmed (hiff.mp harmed)⟩, hchan⟩
  have hrelease : Runs img T (fun h v => View.Entered p h v ∧ v.chan p = none)
      (release (.proc p) : Code H Unit) fun _ h v => View.Awake p h v ∧ v.chan p = none :=
    Runs.release (fun hp rely => ⟨hp.1.kept rely, ((rely.slot p hp.1.held).chan).trans hp.2⟩)
      fun h v inv hp => ⟨hp.1.gives, ⟨hp.1.cur, hp.1.on, hp.1.state, hp.1.unarmed⟩, hp.2⟩
  have hback : Runs img T (fun h v => View.Awake p h v ∧ v.chan p = none)
      (acquire T.lk : Code H Unit) fun _ => Returned T :=
    Runs.acquire (fun hp rely => ⟨hp.1.kept rely,
      ((rely.own p hp.1.cur).chan hp.1.state).trans hp.2⟩) fun h v inv hp hfree =>
        ⟨p, ⟨hp.1.cur, hp.1.on, hp.1.state, hp.1.unarmed⟩,
          ⟨View.take_self, inv.cond hfree⟩, hp.2⟩
  have hother : T.lk ≠ .proc p := T.apart p
  simp only [ne_eq, hother, not_false_eq_true, if_true]
  exact runs_takeOwn.bind fun _ => runs_giveUp.bind fun _ => hsleeping.bind fun _ =>
    runs_sched.bind fun _ => hawake.bind fun _ => hrelease.bind fun _ => hback

/-! ## wakeup -/

/-- A waker holds the lock of the condition, and only slots in `rest` are armed. -/
structure Waking (T : Topic) (rest : List Slot) (p : Slot) (h : H) (v : View H) : Prop
    extends v.Awake p h where
  held : v.owner T.lk = some h
  armed : ∀ q, v.armed q → q ∈ rest

omit [DecidableEq H] in
theorem steady_waking {rest : List Slot} : Steady T (Waking (H := H) T rest p) :=
  fun hp rely => ⟨hp.toAwake.kept rely, (rely.owner _).mpr hp.held,
    fun q harmed => hp.armed q (rely.armed hp.held q harmed)⟩

/-- The waker has the lock of the slot `q`, too. -/
structure Visiting (T : Topic) (rest : List Slot) (p q : Slot) (h : H) (v : View H) : Prop
    extends Waking T rest p h v where
  slot : v.owner (.proc q) = some h
  settled : v.Settled T q

omit [DecidableEq H] in
theorem steady_visiting {rest : List Slot} : Steady T (Visiting (H := H) T rest p q) :=
  fun hp rely => ⟨steady_waking hp.toWaking rely, (rely.owner _).mpr hp.slot,
    (rely.slot q hp.slot).settled hp.settled⟩

omit [DecidableEq H] in
/-- A slot whose lock the waker has and that does not sleep is not armed. -/
theorem Visiting.disarmed {rest : List Slot} {v : View H} (visiting : Visiting T rest p q h v)
    (hne : q ≠ p) (hawake : ¬ v.SleepsOn T q) : ¬ v.armed q := by
  intro harmed
  obtain ⟨g, hg, howner⟩ := (visiting.settled harmed).resolve_left hawake
  obtain rfl := Option.some.inj (visiting.held.symm.trans howner)
  cases visiting.cur.symm.trans hg
  exact hne rfl

theorem runs_wake {rest : List Slot} (hne : q ≠ p) : Runs img T (Visiting T (q :: rest) p q)
    (write (Kernel.wake T.chan q) : Code H Unit) fun _ => Visiting T rest p q := by
  refine Runs.act steady_visiting fun h a inv visiting => ?_
  have hrest : ∀ {r}, r ≠ q → r ∈ q :: rest → r ∈ rest := fun hr hmem =>
    (List.mem_cons.mp hmem).resolve_left hr
  by_cases hsleeps : a.view.SleepsOn T q
  · have hother := View.touch_other a.view .runnable (a.view.chan q) False (Ne.symm hne)
    have hself := View.touch_self a.view .runnable (a.view.chan q) False q
    have hfree : ∀ h', a.view.cur h' = .proc q → h' = h := by
      intro h' hcur
      rcases inv.running hcur with hrun | hheld
      · cases hsleeps.1.symm.trans hrun
      · exact Option.some.inj (hheld.symm.trans visiting.slot)
    rw [view_wake hsleeps]
    refine ⟨View.moves_touch inv visiting.slot hfree False.elim (fun h => nomatch h),
      ⟨⟨⟨visiting.cur, visiting.on, hother.1.trans visiting.state,
        fun harmed => visiting.toAwake.unarmed (hother.2.2.mp harmed)⟩, visiting.held,
        fun r harmed => ?_⟩, visiting.slot, fun harmed => (hself.2.2.mp harmed).elim⟩⟩
    by_cases hr : r = q
    · subst hr
      exact (hself.2.2.mp harmed).elim
    · exact hrest hr (visiting.armed r ((View.touch_other a.view .runnable
        (a.view.chan q) False hr).2.2.mp harmed))
  · have hunarmed := visiting.disarmed hne hsleeps
    rw [wake_same hsleeps]
    refine ⟨.refl inv, ⟨⟨visiting.toAwake, visiting.held, fun r harmed => ?_⟩, visiting.slot,
      visiting.settled⟩⟩
    exact hrest (fun heq => hunarmed (heq ▸ harmed)) (visiting.armed r harmed)

theorem runs_leaveSlot {rest : List Slot} (hne : q ≠ p) :
    Runs img T (Visiting T rest p q) (release (.proc q) : Code H Unit) fun _ =>
      Waking T rest p := by
  have hlk : T.lk ≠ .proc q := T.apart q
  refine Runs.release steady_visiting fun h v inv visiting => ?_
  refine ⟨⟨visiting.slot, fun h => absurd h.symm hlk, fun h => absurd h.symm hlk,
    fun r hr => by cases hr; exact visiting.settled, fun r hr h' hcur => ?_⟩,
    ⟨visiting.cur, visiting.on, visiting.state, visiting.unarmed⟩,
    (View.drop_other hlk).trans visiting.held, visiting.armed⟩
  cases hr
  refine (inv.running hcur).resolve_right fun hheld => ?_
  obtain rfl := Option.some.inj (visiting.slot.symm.trans hheld)
  cases visiting.cur.symm.trans hcur
  exact hne rfl

theorem runs_wakeup (ps : List Slot) : Runs img T (Waking T ps p)
    (Program.forEach ps fun q => do
      if some q ≠ (← myproc) then
        acquire (.proc q)
        write (Kernel.wake T.chan q)
        release (.proc q) : Code H Unit) fun _ => Waking T [] p := by
  induction ps with
  | nil => exact Spec.done fun _ _ => id
  | cons q rest ih =>
    have hmyproc : Runs img T (Waking T (q :: rest) p) (myproc : Code H (Option Slot))
        fun me h v => Waking T (q :: rest) p h v ∧ me = some p :=
      Runs.myproc steady_waking fun h v hp => ⟨hp, hp.on⟩
    refine Runs.bind (Q := fun _ => Waking T rest p) (hmyproc.bind fun me => Spec.known ?_)
      fun _ => ih
    rintro rfl
    by_cases hq : q = p
    · subst hq
      rw [if_neg (not_not.mpr rfl)]
      refine Spec.done fun h v hp => ⟨hp.toAwake, hp.held, fun r harmed => ?_⟩
      refine (List.mem_cons.mp (hp.armed r harmed)).resolve_left fun heq => ?_
      exact hp.unarmed (heq ▸ harmed)
    · rw [if_pos fun h => hq (Option.some.inj h)]
      have htake : Runs img T (Waking T (q :: rest) p) (acquire (.proc q) : Code H Unit)
          fun _ => Visiting T (q :: rest) p q :=
        Runs.acquire steady_waking fun h v inv hp hfree =>
          ⟨⟨⟨hp.cur, hp.on, hp.state, hp.unarmed⟩, View.take_some hfree hp.held, hp.armed⟩,
            View.take_self, View.settled_take hfree (inv.settled hfree)⟩
      exact htake.bind fun _ => (runs_wake hq).bind fun _ => runs_leaveSlot hq

end Kernel

/-! ## Sleepers and wakers -/

section Tasks

/-- Between two tasks. -/
def Up (h : H) (v : View H) : Prop := ∃ p, v.Awake p h

/-- With the lock of the condition held. -/
def Ready (T : Topic) (h : H) (v : View H) : Prop := ∃ p, v.Awake p h ∧ v.Holds T h

omit [DecidableEq H] in
theorem steady_up : Steady (H := H) T Up := fun ⟨p, hp⟩ rely => ⟨p, hp.kept rely⟩

omit [DecidableEq H] in
theorem steady_ready : Steady (H := H) T (Ready T) :=
  fun ⟨p, hp, holds⟩ rely => ⟨p, hp.kept rely, holds.kept rely⟩

omit [DecidableEq H] in
theorem steady_returned : Steady (H := H) T (Returned T) :=
  fun ⟨p, hp, holds, hchan⟩ rely => ⟨p, hp.kept rely, holds.kept rely,
    ((rely.own p hp.cur).chan hp.state).trans hchan⟩

theorem spec_takeLock : Spec img T Up ((acquire T.lk : Code H Unit).translate .code)
    fun _ => Ready T :=
  Runs.acquire steady_up fun _ _ inv ⟨p, hp⟩ hfree =>
    ⟨p, ⟨hp.cur, hp.on, hp.state, hp.unarmed⟩, View.take_self, inv.cond hfree⟩

theorem spec_dropLock : Spec img T (Ready T) ((release T.lk : Code H Unit).translate .code)
    fun _ => Up := by
  refine Runs.release steady_ready fun h v inv ⟨p, hp, holds⟩ => ?_
  have hslot : ∀ q, T.lk ≠ .proc q := T.apart
  refine ⟨⟨holds.held, fun _ => holds.cond, fun _ q hq harmed => ?_,
    fun q hq => absurd hq (hslot q), fun q hq => absurd hq (hslot q)⟩,
    p, hp.cur, hp.on, hp.state, hp.unarmed⟩
  cases hp.cur.symm.trans hq
  exact absurd harmed hp.unarmed

theorem spec_putFalse : Spec img T (Ready T) (.perform (.put false)) fun _ => Ready (H := H) T :=
  Spec.step rfl steady_ready fun _ _ inv ⟨p, hp, holds⟩ =>
    ⟨View.moves_setCond inv holds.held, p, ⟨hp.cur, hp.on, hp.state, hp.unarmed⟩,
      holds.held, fun _ _ => rfl⟩

theorem spec_putTrue : Spec img T (Ready T) (.perform (.put true)) fun _ (h : H) v =>
    ∃ p, Waking T slots p h v :=
  Spec.step rfl steady_ready fun _ _ inv ⟨p, hp, holds⟩ =>
    ⟨View.moves_setCond inv holds.held, p, ⟨hp.cur, hp.on, hp.state, hp.unarmed⟩,
      holds.held, fun q _ => List.mem_finRange q⟩

theorem spec_wakeAll : Spec img T (fun h v => ∃ p, Waking T slots p h v)
    ((wakeup T.chan : Code H Unit).translate .code) fun _ => Ready T := by
  rintro h a inv ⟨p, waking⟩
  refine Logic.wp_mono inv (fun _ h' a' _ hq => ?_) (runs_wakeup slots h a inv waking)
  exact ⟨p, hq.toAwake, hq.held, fun q harmed => absurd (hq.armed q harmed) List.not_mem_nil⟩

theorem spec_slept : Spec img T (Returned T) (.perform .slept) fun _ => Ready (H := H) T := by
  intro h a _ hp h' a' env _
  obtain ⟨rfl, rely⟩ := env_rely env
  refine ⟨steady_returned hp rely, fun _ h₂ a₂ _ hpost => ?_⟩
  obtain ⟨rfl, rely₂⟩ := hpost
  obtain ⟨p, awake, holds, -⟩ := steady_returned (steady_returned hp rely) rely₂
  exact ⟨p, awake, holds⟩

theorem spec_await : Spec img T (Ready T) (.perform .await) fun _ => Ready (H := H) T := by
  intro h a _ hp h' a' env _
  obtain ⟨rfl, rely⟩ := env_rely env
  exact ⟨steady_ready hp rely, fun _ _ _ _ hpost => hpost⟩

theorem spec_more : Spec img T Up (.perform .more) fun value (_ : H) _ => value.elim := by
  intro h a _ hp h' a' env _
  obtain ⟨rfl, rely⟩ := env_rely env
  exact ⟨steady_up hp rely, fun value => value.elim⟩

theorem awaitBody_spec : Spec img T (Ready T) (awaitBody img T) fun _ => Ready (H := H) T := by
  have htest : Spec img T (Ready T) (.perform .test) fun answer h v =>
      Ready (H := H) T h v ∧ v.cond = answer :=
    Spec.step rfl steady_ready fun _ _ inv hp => ⟨.refl inv, hp, rfl⟩
  refine htest.bind fun answer => ?_
  cases answer with
  | true => exact Spec.done fun _ _ hp => hp.1
  | false =>
    have harm : Spec img T (fun h v => Ready (H := H) T h v ∧ v.cond = false) (.perform .arm)
        fun _ h v => ∃ p, View.Deciding T p h v := by
      refine Spec.step rfl (fun hp rely => ⟨steady_ready hp.1 rely, ?_⟩) fun h a inv hp => ?_
      · obtain ⟨⟨-, -, holds⟩, hcond⟩ := hp
        exact (rely.cond holds.held).trans hcond
      · obtain ⟨⟨p, awake, holds⟩, hcond⟩ := hp
        rw [view_arm awake.cur]
        exact ⟨View.moves_arm inv awake.cur holds.held, p, awake.cur, awake.on, awake.state,
          View.arm_self, holds.held, hcond⟩
    have hsleep : Spec img T (fun h v => ∃ p, View.Deciding T p h v)
        ((sleep img T.chan (some T.lk) : Code H Unit).translate .code) fun _ => Returned T :=
      fun h a inv ⟨_, hp⟩ => runs_sleep h a inv hp
    exact harm.bind fun _ => hsleep.bind fun _ => spec_slept.bind fun _ => spec_await

theorem taskBody_spec :
    Spec img T Up (taskBody img T) fun value (_ : H) _ => value.elim := by
  have htask : Spec img T Up (.perform .task) fun _ => Up (H := H) := by
    intro h a _ hp h' a' env _
    obtain ⟨rfl, rely⟩ := env_rely env
    exact fun _ => steady_up hp rely
  refine htask.bind fun task => ?_
  cases task with
  | await consume =>
    refine spec_takeLock.bind fun _ => spec_await.bind fun _ => ?_
    cases consume with
    | true => exact spec_putFalse.bind fun _ => spec_dropLock.bind fun _ => spec_more
    | false => exact spec_dropLock.bind fun _ => spec_more
  | make =>
    exact spec_takeLock.bind fun _ => spec_putTrue.bind fun _ => spec_wakeAll.bind fun _ =>
      spec_dropLock.bind fun _ => spec_more
  | spoil =>
    exact spec_takeLock.bind fun _ => spec_putFalse.bind fun _ =>
      spec_dropLock.bind fun _ => spec_more
  | yield =>
    have hyield : Spec img T Up ((Process.yield img : Code H Unit).translate .code)
        fun _ => Up := fun h a inv ⟨p, hp⟩ =>
      Logic.wp_mono inv (fun _ _ _ _ hq => ⟨p, hq⟩) (runs_yield h a inv hp)
    exact hyield.bind fun _ => spec_more

end Tasks

/-! ## All runs -/

theorem verified : (logic (H := H) img T).Verified where
  call {β i body h a} heffect inv hpre := by
    cases i with
    | code i =>
      cases i with
      | acquire lk =>
        cases heffect
        have htake : Runs img T (fun h' v => h' = h ∧ a.view.Rely T h' v) (takeBody lk)
            fun _ => Took T lk h a.view := takeBody_runs lk h a.view
        have htook := htake h a inv ⟨rfl, .refl⟩
        refine Logic.wp_mono inv (fun _ h' a' _ took => ?_) htook
        obtain ⟨rfl, took⟩ := took
        exact ⟨rfl, took⟩
      | scheduling =>
        cases heffect
        exact Logic.wp_mono inv (fun value => value.elim) (schedulingBody_runs h a inv hpre)
      | wfi =>
        cases heffect
        exact ⟨rfl, .refl⟩
      | _ => cases heffect
    | await =>
      cases heffect
      exact awaitBody_spec h a inv hpre
    | slept =>
      cases heffect
      exact ⟨rfl, .refl⟩
    | more =>
      cases heffect
      exact Logic.wp_mono inv (fun value => value.elim) (taskBody_spec h a inv hpre)
    | _ => cases heffect
  handler _ htrap := htrap.elim
  fresh hfresh := nomatch hfresh

variable {live : Slot → Bool} {memory : Memory} {cond : Bool}

theorem start_inv :
    (start (H := H) live memory cond).world.view.Inv T where
  apart hp := nomatch hp
  home hg := by
    cases hg
    rfl
  armed {p} hsleep := by
    have hstate : (if live p then ProcState.runnable else .unused) = .sleeping := hsleep.1
    cases hlive : live p <;> simp [hlive] at hstate
  cond _ p harmed := nomatch harmed
  settled _ harmed := nomatch harmed
  running hp := nomatch hp

theorem start_good : (logic (H := H) img T).Good (start live memory cond) where
  inv := start_inv
  running h := by
    have hbegin : Runs img T (fun h v => v.cur h = .cpu h) (scheduler : Code H Empty)
        fun value _ _ => value.elim := by
      have hleave : Runs img T (fun h v => v.cur h = .cpu h)
          (writeCpu fun c => { c with proc := none } : Code H Unit)
          fun _ h v => v.cur h = .cpu h :=
        Runs.act steady_home fun h a inv hcur => by
          have hmoves : a.view.Moves T h (a.view.setOn h none) := View.moves_setOn inv hcur
          rw [view_setOn]
          exact ⟨hmoves, hcur⟩
      exact hleave.bind fun _ => runs_scheduling
    exact hbegin h _ start_inv rfl
  suspended c hc := by
    cases c with
    | cpu g => exact absurd rfl (hc g)
    | proc p =>
      intro h' a' inv resume _ _
      exact Spec.bind runs_release_own (fun _ => Spec.mono (fun _ _ hp => ⟨p, hp⟩)
        (fun _ _ _ hq => hq) spec_more) h' a' inv resume

end Sleepers

end Xv6Kernel.Process
