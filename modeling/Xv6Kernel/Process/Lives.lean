import Xv6Kernel.Process.Naps

/-!
# The lives of processes

What the invariant says of every state that the kernel comes to: who holds a lock when the
stacks are switched, who is running, who waits for whom, and whose child everybody is.
-/

namespace Xv6Kernel.Process

open Xv6Kernel.Foundation Xv6Kernel.Mm

variable {H : Type} [DecidableEq H] {S : Setting H} {entries : List Word} {memory : Memory}
variable {m m' : Config (Instr H) H (Ctx H) (World H)}

/-! ## The hand-off of the lock -/

/-- A hart comes to `swtch` with the lock of the process it leaves or enters and no
other, and reaches none of the panics about locks. -/
structure LocksHandedOff (m : Config (Instr H) H (Ctx H) (World H)) : Prop where
  swtch : ∀ {h old new regs} {next : Unit → Code H Empty},
    m.code h = .step (.swtch old new regs) next → ∃ p, Handoff old new h m.world p
  panic : ∀ {h message} {β : Type} {next : β → Code H Empty},
    m.code h = .step (.panic message) next → message ∉ lockPanics

theorem swtch_holds_one_lock (reaches : Reaches S entries memory m) : LocksHandedOff m where
  swtch hcode := reaches.good.handoff hcode rfl
  panic hcode := reaches.good.mayHalt hcode rfl

/-- The first process of `main` leaves its stack with its lock. -/
theorem swtch_holds_one_lock_sample : ∃ memory m regs, ∃ next : Unit → Code Unit Empty,
    Reaches sampleSetting [sampleEntry, sampleEntry] memory m ∧
    m.code () = .step (.swtch (.proc slot₁) (.cpu ()) regs) next ∧
    ∃ p, Handoff (.proc slot₁) (.cpu ()) () m.world p := by
  obtain ⟨memory, w, k, saved, last, hclient, idles, -⟩ := leads_firstClient false
  let rest : Unit → Code Unit Empty := fun _ => (pure [] : Code Unit _) >>= fun held =>
    Program.perform (.client held) >>= last
  have hcalled : Reachable (platform sampleImage false)
      (lone w (Program.perform (.client []) >>= last) saved)
      (lone w (yield sampleImage >>= rest) saved) := by
    simpa only [takeAction, if_true, bind_assoc] using leads_client .yield
  obtain ⟨w', hyielding, guards⟩ := leads_yielding sampleImage false rest idles
  have hswitching := leads_switching sampleImage false saved (afterYield slot₁ rest) guards
    (by simp) inSched_frameOf.2.1
  have reaches : Reaches sampleSetting [sampleEntry, sampleEntry] memory _ :=
    hclient.trans (hcalled.trans (hyielding.trans hswitching))
  exact ⟨memory, _, frameOf slot₁, _, reaches, rfl, (swtch_holds_one_lock reaches).swtch rfl⟩

/-! ## Waiting parents -/

/-- Whoever sleeps in `wait_process` has a child and no zombie child. -/
def NoLostExit (w : World H) : Prop :=
  (w.lock .wait).locked = none → ∀ p, w.kernel.state p = .sleeping →
    w.kernel.chan p = some (.proc p) → w.kernel.phase p ≠ .out →
      (∃ q, w.kernel.parent q = some p) ∧
        ∀ q, w.kernel.parent q = some p → w.kernel.state q ≠ .zombie

theorem waiting_parent_has_no_zombie (reaches : Reaches S entries memory m) :
    NoLostExit m.world := by
  intro hfree p hsleeping _ hinside
  have inv := reaches.good.inv
  have harmed : m.world.kernel.phase p = .armed :=
    (((inv.data.slot p).sleeping hsleeping).resolve_left hinside).1
  exact inv.calm hfree p harmed

/-- The second process of `main` waits for its child. -/
theorem waiting_parent_has_no_zombie_sample : ∃ memory m,
    Reaches sampleSetting [sampleEntry, sampleEntry] memory m ∧
    m.world.kernel.state slot₂ = .sleeping ∧
    (∃ q, m.world.kernel.parent q = some slot₂) ∧
      ∀ q, m.world.kernel.parent q = some slot₂ → m.world.kernel.state q ≠ .zombie := by
  obtain ⟨memory, w, k, saved, hreach, idles, family, hchan, hphase⟩ := leads_napping false
  have reaches : Reaches sampleSetting [sampleEntry, sampleEntry] memory _ := hreach
  have hwait : (w.lock .wait).locked = none := by rw [idles.rests.free]
  have hstate : w.kernel.state slot₂ = .sleeping := by
    rw [idles.kernel]
    exact family.state₂
  refine ⟨memory, _, reaches, hstate,
    waiting_parent_has_no_zombie reaches hwait slot₂ hstate ?_ ?_⟩
  · change w.kernel.chan slot₂ = _
    rw [idles.kernel]
    exact hchan
  · change w.kernel.phase slot₂ ≠ _
    rw [idles.kernel, Kernel.phase, hphase]
    decide

/-! ## The life cycle -/

/-- On one hart a slot whose lock is free is running if and only if it is the current
process, so that there is at most one running process and none while the scheduler
looks for one. -/
structure OneRunning (w : World Unit) : Prop where
  current : ∀ p, (w.lock (.proc p)).locked = none →
    (w.kernel.state p = .running ↔ (w.cpus ()).proc = some p)
  unique : ∀ p q, w.kernel.state p = .running → w.kernel.state q = .running → p = q
  scanning : w.cur () = .cpu () → ∀ p, (w.lock (.proc p)).locked = none →
    w.kernel.state p ≠ .running

omit [DecidableEq H] in
theorem Inv.oneRunning {img : Image} {w : World Unit} (inv : Inv img w) : OneRunning w where
  current p hfree := by
    constructor
    · intro hrunning
      obtain ⟨⟨⟩, hp⟩ := inv.claimed hrunning
      exact hp
    · intro hp
      have hcur : w.cur () = .proc p :=
        (inv.proc_held hp).resolve_right (by rw [hfree]; nofun)
      exact (inv.cur_state hcur).resolve_right (by rw [hfree]; nofun)
  unique p q hp hq := by
    obtain ⟨⟨⟩, hp'⟩ := inv.claimed hp
    obtain ⟨⟨⟩, hq'⟩ := inv.claimed hq
    exact Option.some.inj (hp'.symm.trans hq')
  scanning hcpu p hfree hrunning := by
    obtain ⟨⟨⟩, hp⟩ := inv.claimed hrunning
    have hcur : w.cur () = .proc p :=
      (inv.proc_held hp).resolve_right (by rw [hfree]; nofun)
    rw [hcpu] at hcur
    cases hcur

/-- On one hart every step moves the states of the slots along the edges of the life
cycle, and there is at most one running process. -/
theorem life_cycle {S : Setting Unit} {m : Config (Instr Unit) Unit (Ctx Unit) (World Unit)}
    (reaches : Reaches S entries memory m) :
    OneRunning m.world ∧ ∀ m', Step (platform S.img S.quiet) m m' → ∀ p,
      StateMove (m.world.cur ()) p m.world.kernel (m.world.kernel.state p)
        (m'.world.kernel.state p) := by
  refine ⟨reaches.good.inv.oneRunning, fun m' hstep p => ?_⟩
  obtain ⟨⟨⟩, -, hworld⟩ := reaches.good.allowed verified hstep
  rcases hworld with heq | hallowed
  · rw [heq]
    exact .still _
  · exact hallowed p

/-- The scheduler makes `initproc` the running process. -/
theorem life_cycle_sample : ∃ memory m m',
    Reaches sampleSetting [sampleEntry, sampleEntry] memory m ∧
    Step (platform sampleImage false) m m' ∧
    m.world.kernel.state slot₀ = .runnable ∧ m'.world.kernel.state slot₀ = .running ∧
    StateMove (m.world.cur ()) slot₀ m.world.kernel (m.world.kernel.state slot₀)
      (m'.world.kernel.state slot₀) ∧ OneRunning m'.world := by
  obtain ⟨memory, w, k, hmain, idles, booted⟩ := leads_main false
  let saved : Ctx Unit → Code Unit Empty := fun _ => panic "never run"
  obtain ⟨w₁, hscheduler, idles₁⟩ := leads_scheduler sampleImage false saved idles
  have hrunnable : (k.proc slot₀).state = .runnable := booted.newborn.1.state
  rw [slots_eq] at hscheduler
  obtain ⟨w₂, hands, -⟩ := hands_dispatch sampleImage false saved []
    (slot₁ :: slot₂ :: slots.drop 3) false nextPass idles₁ (fun _ hq => nomatch hq) hrunnable
  obtain ⟨m₁, m₂, hbefore, hstep, hk₁, hk₂, -⟩ := hands
  have reaches : Reaches sampleSetting [sampleEntry, sampleEntry] memory m₁ :=
    hmain.trans (hscheduler.trans hbefore)
  have reaches' : Reaches sampleSetting [sampleEntry, sampleEntry] memory m₂ := reaches.tail hstep
  refine ⟨memory, m₁, m₂, reaches, hstep, ?_, ?_, (life_cycle reaches).2 m₂ hstep slot₀,
    (life_cycle reaches').1⟩
  · rw [hk₁]
    exact hrunnable
  · rw [hk₂, Kernel.state, Kernel.setProc_proc_self]

/-! ## The parents -/

/-- The parent of the parent, and so on. -/
def Kernel.ancestor (k : Kernel) (p : Slot) : Nat → Option Slot
  | 0 => some p
  | n + 1 => (k.ancestor p n).bind k.parent

/-- The parents form a forest of live processes. -/
structure Forest (k : Kernel) : Prop where
  unused : ∀ p, k.state p = .unused → k.parent p = none
  parent : ∀ {q p}, k.parent q = some p → k.state p ≠ .unused ∧ k.state p ≠ .zombie
  acyclic : ∀ p, ∃ n, k.ancestor p n = none
  init : k.booted = true → ∃ i, k.initproc = some i ∧ k.parent i = none ∧
    k.state i ≠ .unused ∧ k.state i ≠ .zombie

omit [DecidableEq H] in
theorem ancestor_parent (k : Kernel) {q p : Slot} (hparent : k.parent q = some p) (n : Nat) :
    k.ancestor q (n + 1) = k.ancestor p n := by
  induction n with
  | zero => exact hparent
  | succ n ih => rw [Kernel.ancestor, ih, Kernel.ancestor]

omit [DecidableEq H] in
theorem ProcState.Alive.ne {s : ProcState} (halive : s.Alive) : s ≠ .unused ∧ s ≠ .zombie := by
  cases s <;> simp_all

omit [DecidableEq H] in
theorem Data.forest {img : Image} {k : Kernel} (data : Data img k) : Forest k where
  unused p := (data.slot p).unused
  parent hp := (data.tree.parent_alive hp).ne
  acyclic p := by
    -- each step leads to an older process
    induction hs : k.serial p using Nat.strong_induction_on generalizing p with
    | _ s ih =>
      cases hp : k.parent p with
      | none => exact ⟨1, hp⟩
      | some r =>
        obtain ⟨n, hn⟩ := ih (k.serial r) (hs ▸ data.order hp) r rfl
        exact ⟨n + 1, (ancestor_parent k hp n).trans hn⟩
  init hbooted := by
    obtain ⟨i, hi, halive⟩ := data.tree.init hbooted
    refine ⟨i, hi, ?_, halive.ne⟩
    cases hp : k.parent i with
    | none => rfl
    | some r =>
      have horder := data.order hp
      rw [data.root hbooted i hi] at horder
      have hpos := data.pids.pos (data.tree.parent_alive hp).live
      omega

theorem parents_form_forest (reaches : Reaches S entries memory m) :
    Forest m.world.kernel :=
  reaches.good.inv.data.forest

/-- The second process of `main` has a child. -/
theorem parents_form_forest_sample : ∃ memory m,
    Reaches sampleSetting [sampleEntry, sampleEntry] memory m ∧
    m.world.kernel.booted = true ∧ m.world.kernel.parent slot₃ = some slot₂ ∧
    Forest m.world.kernel := by
  obtain ⟨memory, w, k, saved, next, hreach, idles, home, -⟩ := rounds false (le_refl 4)
  obtain ⟨w', k', hbred, idles', family, -⟩ := leads_bred false saved next idles home
  have reaches : Reaches sampleSetting [sampleEntry, sampleEntry] memory _ := hreach.trans hbred
  have hlive : (w'.kernel.state slot₃).Live := by
    rw [idles'.kernel, Kernel.state, family.state₃]
    trivial
  refine ⟨memory, _, reaches, reaches.good.inv.data.booted hlive, ?_,
    parents_form_forest reaches⟩
  change w'.kernel.parent slot₃ = _
  rw [idles'.kernel]
  exact family.parent

end Xv6Kernel.Process
