import Xv6Kernel.Foundation.Staying
import Xv6Kernel.Process.FirstTurns

/-!
# Many harts

No two harts are ever on one stack, and what a hart has locked stands still for it while
the others run.
-/

namespace Xv6Kernel.Process

open Xv6Kernel.Foundation Xv6Kernel.Mm Relation

variable {H : Type} [DecidableEq H] {S : Setting H} {entries : List Word} {memory : Memory}
  {m m' : Config (Instr H) H (Ctx H) (World H)} {h : H} {w w' : World H}

/-! ## Who runs what -/

/-- Every stack has at most one hart on it, and a process runs on the one hart that has it as
its `proc`. -/
structure RunApart (w : World H) : Prop where
  stack : ∀ {h h' c}, w.cur h = c → w.cur h' = c → h = h'
  scheduler : ∀ {h h'}, w.cur h = .cpu h' → h' = h
  current : ∀ {h p}, w.cur h = .proc p → (w.cpus h).proc = some p
  owner : ∀ {p}, w.kernel.state p = .running → ∃! h, (w.cpus h).proc = some p
  running : ∀ {p}, (w.lock (.proc p)).locked = none →
    (w.kernel.state p = .running ↔ ∃ h, w.cur h = .proc p)

omit [DecidableEq H] in
theorem Inv.runApart {img : Image} (inv : Inv img w) : RunApart w where
  stack {h h' c} hc hc' := by
    cases c with
    | proc p => exact inv.cur_inj hc hc'
    | cpu h₀ => exact (inv.cur_cpu hc).symm.trans (inv.cur_cpu hc')
  scheduler := inv.cur_cpu
  current := inv.proc_cur
  owner hrunning := by
    obtain ⟨h, hp⟩ := inv.claimed hrunning
    exact ⟨h, hp, fun h' hp' => inv.proc_inj hp' hp⟩
  running {p} hfree := by
    constructor
    · intro hrunning
      obtain ⟨h, hp⟩ := inv.claimed hrunning
      rcases inv.proc_held hp with hcur | hlocked
      · exact ⟨h, hcur⟩
      · cases hfree.symm.trans hlocked
    · rintro ⟨h, hcur⟩
      rcases inv.cur_state hcur with hrunning | hlocked
      · exact hrunning
      · cases hfree.symm.trans hlocked

/-- One step moves the states along the edges of the life cycle, each edge taken by whom it
belongs to: one hart moves, with the context `c`. -/
def MovesStates (m m' : Config (Instr H) H (Ctx H) (World H)) : Prop :=
  ∃ h, (∀ h', h' ≠ h → m'.code h' = m.code h') ∧
    ∀ p, StateMove (m.world.cur h) p m.world.kernel (m.world.kernel.state p)
      (m'.world.kernel.state p)

theorem harts_run_apart (reaches : Reaches S entries memory m) :
    RunApart m.world ∧ ∀ m', Step (platform S.img S.quiet) m m' → MovesStates m m' := by
  refine ⟨reaches.good.inv.runApart, fun m' hstep => ?_⟩
  obtain ⟨h, hcode, hworld⟩ := reaches.good.allowed verified hstep
  refine ⟨h, hcode, fun p => ?_⟩
  rcases hworld with heq | hallowed
  · rw [heq]
    exact .still _
  · exact hallowed p

/-- Two harts, one of which has `main` to run. -/
def twinSetting : Setting Bool := ⟨sampleImage, true, false⟩

/-- The hart with `main` has taken its first lock. -/
theorem leads_twinLocked : ∃ m, Reaches twinSetting [] ⟨fun _ => 0, 0, 0⟩ m ∧
    m.world = (bootWorld ⟨fun _ => 0, 0, 0⟩).taken true (.proc slot₀) ∧
      m.code false = scheduler := by
  obtain ⟨rest, hmain⟩ : ∃ rest, (main sampleImage [] : Code Bool Empty) =
      acquire (.proc slot₀) >>= rest := by
    simp only [main, userinit, allocProcess, bind_assoc]
    rw [slots_eq]
    simp only [allocScan, bind_assoc]
    exact ⟨_, rfl⟩
  have htaken : Alone (platform sampleImage false) true (acquire (.proc slot₀)) _ _ :=
    alone_acquire (w := (bootWorld ⟨fun _ => 0, 0, 0⟩ : World Bool)) rfl
  have hreach := htaken.reachable (m := boot sampleImage true [] ⟨fun _ => 0, 0, 0⟩) rfl hmain
  exact ⟨_, hreach, rfl, rfl⟩

/-- On one hart the scheduler makes `initproc` the running process; on two the first lock of
`main` is held while the other hart starts. -/
theorem harts_run_apart_sample :
    (∃ memory m m', Reaches sampleSetting [sampleEntry, sampleEntry] memory m ∧
      Step (platform sampleImage false) m m' ∧ m'.world.kernel.state slot₀ = .running ∧
      MovesStates m m' ∧ RunApart m'.world) ∧
    ∃ m, Reaches twinSetting [] ⟨fun _ => 0, 0, 0⟩ m ∧
      (m.world.lock (.proc slot₀)).locked = some true ∧ RunApart m.world := by
  constructor
  · obtain ⟨memory, w, k, hmain, idles, booted⟩ := leads_main false
    let saved : Ctx Unit → Code Unit Empty := fun _ => panic "never run"
    obtain ⟨w₁, hscheduler, idles₁⟩ := leads_scheduler sampleImage false saved idles
    rw [slots_eq] at hscheduler
    obtain ⟨w₂, hands, -⟩ := hands_dispatch sampleImage false saved []
      (slot₁ :: slot₂ :: slots.drop 3) false nextPass idles₁ (fun _ hq => nomatch hq)
      booted.newborn.1.state
    obtain ⟨m₁, m₂, hbefore, hstep, -, hk₂, -⟩ := hands
    have reaches : Reaches sampleSetting [sampleEntry, sampleEntry] memory m₁ :=
      hmain.trans (hscheduler.trans hbefore)
    have reaches' : Reaches sampleSetting [sampleEntry, sampleEntry] memory m₂ :=
      reaches.tail hstep
    refine ⟨memory, m₁, m₂, reaches, hstep, ?_, (harts_run_apart reaches).2 m₂ hstep,
      (harts_run_apart reaches').1⟩
    rw [hk₂, Kernel.state, Kernel.setProc_proc_self]
  · obtain ⟨m, reaches, hworld, -⟩ := leads_twinLocked
    refine ⟨m, reaches, ?_, (harts_run_apart reaches).1⟩
    rw [hworld, World.lock_taken_self]

/-! ## What a lock protects -/

/-- Steps of the other harts, in any order. -/
def OthersRun (S : Setting H) (h : H) :
    Config (Instr H) H (Ctx H) (World H) → Config (Instr H) H (Ctx H) (World H) → Prop :=
  ReflTransGen fun m m' => ∃ h', h ≠ h' ∧ StepOf (platform S.img S.quiet) h' m m'

/-- What `h` finds as it left it: itself, its locks, and the data behind them. -/
structure Undisturbed (h : H) (w w' : World H) : Prop where
  cur : w'.cur h = w.cur h
  cpu : w'.cpus h = w.cpus h
  csr : w'.csr h = w.csr h
  locked : ∀ lk, (w'.lock lk).locked = some h ↔ (w.lock lk).locked = some h
  slot : ∀ p, (w.lock (.proc p)).locked = some h →
    ∃ parent, w'.kernel.proc p = { w.kernel.proc p with parent }
  wait : (w.lock .wait).locked = some h → w'.kernel.parent = w.kernel.parent ∧
    ∀ p, w'.kernel.state p = .zombie ↔ w.kernel.state p = .zombie
  pids : (w.lock .pid).locked = some h → w'.kernel.nextpid = w.kernel.nextpid
  /-- The process itself, whatever it holds, with the children it has. -/
  own : ∀ p, w.cur h = .proc p → (w.kernel.state p).Alive →
    (w'.kernel.state p).Alive ∧ w'.kernel.pid p = w.kernel.pid p ∧
      w'.kernel.context p = w.kernel.context p ∧
      ∀ q, w.kernel.parent q = some p →
        w'.kernel.parent q = some p ∧ w'.kernel.pid q = w.kernel.pid q

omit [DecidableEq H] in
theorem Rely.undisturbed (rely : Rely S h w w') : Undisturbed h w w' where
  cur := rely.cur
  cpu := rely.cpus
  csr := rely.csr
  locked := rely.locked
  slot p hp := (rely.frame.slot p hp).proc
  wait hwait := ⟨(rely.frame.wait hwait).parent, (rely.frame.wait hwait).zombie⟩
  pids hpid := (rely.frame.pids hpid).nextpid
  own p hcur halive := by
    have hown := rely.frame.own
    rw [hcur] at hown
    have kept := hown halive
    refine ⟨kept.alive, kept.pid, kept.context (.inl trivial), fun q hq => ?_⟩
    obtain ⟨hparent, -, hpid⟩ := kept.children q hq
    exact ⟨hparent, hpid⟩

theorem OthersRun.rely (good : (logic S).Good m) (hrun : OthersRun S h m m') :
    (logic S).Good m' ∧ Rely S h m.world m'.world := by
  induction hrun with
  | refl => exact ⟨good, .refl h _⟩
  | tail _ hstep ih =>
      obtain ⟨h', hne, hstep⟩ := hstep
      obtain ⟨good', rely⟩ := ih
      refine ⟨good'.reachable verified (.single hstep.step), ?_⟩
      rcases good'.rely verified hstep hne with heq | rely'
      · rwa [heq]
      · exact rely.trans rely'

/-- However long the others run, a hart finds what it has locked as it was. -/
def LocksProtect (S : Setting H) (m : Config (Instr H) H (Ctx H) (World H)) : Prop :=
  ∀ h m', OthersRun S h m m' → Undisturbed h m.world m'.world

theorem locks_protect (reaches : Reaches S entries memory m) : LocksProtect S m :=
  fun _ _ hrun => (hrun.rely reaches.good).2.undisturbed

section Twin

variable {m : Config (Instr Bool) Bool (Ctx Bool) (World Bool)} {w w' : World Bool} {α β : Type}

/-- The hart without `main` has come to `code`. -/
def besides (m : Config (Instr Bool) Bool (Ctx Bool) (World Bool)) (w : World Bool)
    (code : Code Bool Empty) : Config (Instr Bool) Bool (Ctx Bool) (World Bool) :=
  { m with world := w, code := Function.update m.code false code }

theorem others_alone {program : Code Bool α} {value : α} {next : α → Code Bool Empty}
    (hrun : Alone (platform sampleImage false) false program w (.ok (value, w'))) :
    OthersRun twinSetting true (besides m w (program >>= next)) (besides m w' (next value)) := by
  have hcode : (besides m w (program >>= next)).code false = program >>= next := by
    simp [besides]
  have hsteps := hrun.stepsOf rfl hcode
  have hrest : OthersRun twinSetting true (besides m w (program >>= next)) _ :=
    hsteps.lift id fun _ _ hstep => ⟨false, by decide, hstep⟩
  simpa only [besides, Function.update_idem, id] using hrest

theorem others_call {i : Instr Bool β} {body : Code Bool β} {next : β → Code Bool Empty}
    (hbody : effect sampleImage i = .call body) :
    OthersRun twinSetting true (besides m w (Program.perform i >>= next))
      (besides m w (body >>= next)) := by
  have hcode : (besides m w (Program.perform i >>= next)).code false = .step i next := by
    simp only [besides, Function.update_self]
    rfl
  have hstep : OthersRun twinSetting true (besides m w (Program.perform i >>= next)) _ :=
    .single ⟨false, by decide, .call hcode hbody⟩
  simpa only [besides, Function.update_idem] using hstep

/-- The scheduler of the other hart comes to spin on the lock of the first slot. -/
theorem others_spin (hlock : w.lock (.proc slot₀) = ⟨some true, some true⟩) :
    ∃ w' next, OthersRun twinSetting true (besides m w scheduler)
      (besides m w' (.step (.spin (.proc slot₀)) next)) := by
  let w₁ := w.setCpu false fun c => { c with proc := none }
  let w₂ := (w₁.setSie false true).setSie false false
  have hclear : Alone (platform sampleImage false) false
      (writeCpu fun c => { c with proc := none } : Code Bool Unit) w (.ok ((), w₁)) :=
    alone_act _
  have hon : Alone (platform sampleImage false) false (intrOn : Code Bool Unit) w₁
      (.ok ((), w₁.setSie false true)) := alone_act _
  have hoff : Alone (platform sampleImage false) false (intrOff : Code Bool Unit)
      (w₁.setSie false true) (.ok ((), w₂)) := alone_act _
  have hholding : Alone (platform sampleImage false) false (holding (.proc slot₀) : Code Bool Bool)
      (w₂.pushed false) (.ok (false, w₂.pushed false)) := by
    have hrun : Alone (platform sampleImage false) false
        (holding (.proc slot₀) : Code Bool Bool) (w₂.pushed false) _ := alone_holding _
    have hsame : (w₂.pushed false).lock (.proc slot₀) = ⟨some true, some true⟩ := hlock
    rw [hsame] at hrun
    simpa using hrun
  obtain ⟨rest, hbody⟩ : ∃ rest : Unit → Code Bool Empty, schedulingBody = intrOn >>= fun _ =>
      intrOff >>= fun _ => Program.perform (.acquire (.proc slot₀)) >>= rest := by
    rw [schedulingBody, slots_eq]
    simp only [schedScan, bind_assoc]
    exact ⟨_, rfl⟩
  have hpass : OthersRun twinSetting true
      (besides m w₁ (Program.perform .scheduling >>= Program.done))
      (besides m w₁ (schedulingBody >>= Program.done)) := others_call rfl
  rw [Program.bind_pure', Program.bind_pure', hbody] at hpass
  obtain ⟨rest', hacquire, next, hnext⟩ : ∃ rest' : Bool → Code Bool Empty,
      (acquireBody (.proc slot₀) >>= rest : Code Bool Empty) =
        (pushOff >>= fun _ => holding (.proc slot₀) >>= rest') ∧
      ∃ next, rest' false = .step (.spin (.proc slot₀)) next := by
    simp only [acquireBody, bind_assoc]
    exact ⟨_, rfl, _, rfl⟩
  have hcall : OthersRun twinSetting true
      (besides m w₂ (Program.perform (.acquire (.proc slot₀)) >>= rest))
      (besides m w₂ (acquireBody (.proc slot₀) >>= rest)) := others_call rfl
  rw [hacquire] at hcall
  have hlast := hcall.trans ((others_alone alone_pushOff).trans (others_alone hholding))
  rw [hnext] at hlast
  exact ⟨w₂.pushed false, next, (others_alone hclear).trans (hpass.trans
    ((others_alone hon).trans ((others_alone hoff).trans hlast)))⟩

end Twin

/-- While a hart holds the lock of the first slot the other one comes to spin on it. -/
theorem locks_protect_sample : ∃ m m' next, Reaches twinSetting [] ⟨fun _ => 0, 0, 0⟩ m ∧
    (m.world.lock (.proc slot₀)).locked = some true ∧ OthersRun twinSetting true m m' ∧
    m'.code false = .step (.spin (.proc slot₀)) next ∧ Undisturbed true m.world m'.world := by
  obtain ⟨m, reaches, hworld, hcode⟩ := leads_twinLocked
  have hlock : m.world.lock (.proc slot₀) = ⟨some true, some true⟩ := by
    rw [hworld, World.lock_taken_self]
  obtain ⟨w', next, hspin⟩ := others_spin (m := m) hlock
  have hsame : besides m m.world scheduler = m := by
    rw [besides, ← hcode, Function.update_eq_self]
  rw [hsame] at hspin
  exact ⟨m, _, next, reaches, by rw [hlock], hspin, by simp [besides],
    locks_protect reaches true _ hspin⟩

end Xv6Kernel.Process
