import Xv6Kernel.Process.Allocating

/-!
# A new process among other harts

From the slot that `alloc_process` answers to the pid that `create_process` returns:
the process becomes visible when its state is runnable and its lock is given back.
-/

namespace Xv6Kernel.Process

open Xv6Kernel.Foundation Xv6Kernel.Mm

variable {H : Type} {S : Setting H} {l : Local H} {F : Kernel → Prop}
  {h : H} {w : World H} {p q : Slot} {c : Ctx H} {k : Kernel} {img : Image} {entry : Word}

/-! ## Events that say nothing new -/

section Record

variable {event : Event} {held : Lock → Prop}

theorem others_record (hforks : ∀ creator child, event ≠ .forked creator child) :
    Others S c held k (k.record event) where
  own c' _ := by
    cases c' with
    | proc p =>
        exact fun halive => ⟨halive, ⟨k.phase p, rfl, .inl rfl⟩, fun h h' => ⟨h, h'⟩, rfl,
          fun _ => rfl, fun _ hq => ⟨hq, rfl, rfl⟩, rfl⟩
    | cpu h => exact fun _ => ⟨rfl, rfl, fun _ => rfl⟩
  reborn p _ hdead halive := absurd halive hdead
  slot p _ := ⟨⟨k.parent p, rfl⟩, id, rfl, rfl, rfl, fun _ => rfl,
    fun hlog ⟨creator, hforked⟩ => hlog ⟨creator, by
      simpa [(hforks creator (k.serial p)).symm] using hforked⟩⟩
  wait _ := ⟨rfl, fun _ => .rfl, fun _ => id⟩
  pids _ := ⟨rfl, rfl⟩
  forever := ⟨List.suffix_cons .., fun _ hl hc => ⟨hl, hc, rfl, rfl⟩⟩

theorem frame_record {full : Prop} :
    Frame S full c (fun _ => False) k (k.record event) where
  own := by
    cases c with
    | proc p =>
        exact fun halive => ⟨halive, ⟨k.phase p, rfl, .inl rfl⟩, fun h h' => ⟨h, h'⟩, rfl,
          fun _ => rfl, fun _ hq => ⟨hq, rfl, rfl⟩, rfl⟩
    | cpu h => exact fun _ => ⟨rfl, rfl, fun _ => rfl⟩
  slot _ := False.elim
  wait := False.elim
  pids := False.elim
  forever := ⟨List.suffix_cons .., fun _ hl hc => ⟨hl, hc, rfl, rfl⟩⟩

theorem Data.mute (data : Data img k) (hmute : event.Mute)
    (hok : EventOk (k.initproc.map k.serial) k.log event) (hbooted : k.booted = true) :
    Data img (k.record event) where
  tree := data.tree
  pids := data.pids
  slot := data.slot
  hist := data.hist.mute hmute hok
  start hfalse := by
    rw [show k.booted = false from hfalse] at hbooted
    cases hbooted
  order := data.order
  root := data.root

theorem change_record (inv : Inv S.img w) (on : On l h w) (hmute : event.Mute)
    (hok : EventOk (w.kernel.initproc.map w.kernel.serial) w.kernel.log event)
    (hbooted : w.kernel.booted = true) : Change S l w (w.kernel.record event) :=
  .of_others inv on (inv.data.mute hmute hok hbooted) (others_record fun creator child heq => by
      rw [heq] at hmute
      exact hmute)
    (fun _ => .inl rfl) (fun harmed => .inl ⟨harmed, rfl, rfl⟩)
    (fun hq halive => inv.fresh hq halive) fun _ => .inl rfl

end Record

/-! ## The parent -/

/-- The slot before it becomes a process. -/
structure Raised (S : Setting H) (c : Ctx H) (q : Slot) (k : Kernel) : Prop
    extends Numbered c q k where
  used : k.state q = .used
  awake : ∀ p, c = .proc p → Awake p k
  pid : k.pid q = pidOf (k.serial q)
  ra : (k.context q).ra = S.img.forkret
  parent : k.parent q = c.slot

theorem Ctx.slot_eq {c : Ctx H} : c.slot = some p ↔ c = .proc p := by
  cases c <;> simp [Ctx.slot]

theorem Raised.ne (raised : Raised S c q k) : c ≠ .proc q := by
  intro hc
  have halive := (raised.awake q hc).1
  rw [raised.used] at halive
  exact halive

theorem stable_raised (hheld : l.held (.proc q)) : Stable S l (Raised S l.ctx q) := by
  intro k k' frame raised
  have kept := frame.slot q hheld
  obtain ⟨parent, hproc⟩ := kept.proc
  have hawake := stable_awakeAt _ _ frame raised.awake
  have hserial : ∀ p, l.ctx = .proc p → k'.serial p = k.serial p := by
    intro p hp
    have hown := frame.own
    rw [hp] at hown
    obtain ⟨phase, heq, -⟩ := (hown (raised.awake p hp).1).shadow
    rw [Kernel.serial, heq]
    rfl
  refine ⟨⟨?_, ?_, fun p hp => ?_⟩, kept.state.trans raised.used, hawake, ?_, ?_, ?_⟩
  · rw [kept.serial]
    exact raised.serial
  · rw [kept.serial]
    exact kept.unforked raised.unforked
  · rw [hserial p hp, kept.serial]
    exact raised.younger p hp
  · rw [kept.serial, ← raised.pid, Kernel.pid, hproc]
    rfl
  · rw [← raised.ra, Kernel.context, hproc]
    rfl
  · cases hc : l.ctx with
    | proc p =>
        have hown := frame.own
        rw [hc] at hown
        have hparent := raised.parent
        rw [hc] at hparent
        exact ((hown (raised.awake p hc).1).children q hparent).1
    | cpu h =>
        have hparent := raised.parent
        rw [hc] at hparent
        exact kept.orphan hparent

theorem Data.setParent (data : Data img k) (hdead : ¬ (k.state q).Live)
    (hused : k.state q ≠ .unused) (halive : (k.state p).Alive)
    (hyounger : k.serial p < k.serial q) :
    Data img (k.setProc q fun s => { s with parent := some p }) := by
  have hstate : (k.setProc q fun s => { s with parent := some p }).state = k.state := by
    simp [Function.update_eq_self]
  have hpid : (k.setProc q fun s => { s with parent := some p }).pid = k.pid := by
    simp [Function.update_eq_self]
  have hxstate : (k.setProc q fun s => { s with parent := some p }).xstate = k.xstate := by
    simp [Function.update_eq_self]
  refine ⟨?_, ?_, fun r => ?_, ?_, data.start, fun {r s} hr => ?_, data.root⟩
  · rw [hstate, Kernel.setProc_parent]
    exact data.tree.setParent fun i hi => by
      cases hi
      exact halive
  · rw [hstate, hpid]
    exact data.pids
  · by_cases hr : r = q
    · subst hr
      have hslot := data.slot r
      simp only [Kernel.setProc_proc_self, Kernel.setProc_shadow]
      exact ⟨hslot.killed, fun hu => absurd hu hused, hslot.sleeping, hslot.runnable,
        hslot.entry, hslot.used⟩
    · rw [Kernel.setProc_proc_of_ne _ _ hr]
      exact data.slot r
  · rw [hstate, hxstate, Kernel.setProc_parent]
    exact data.hist.dead hdead (fun r hr => Function.update_of_ne hr _ _)
      (fun _ _ => rfl) (fun _ _ => rfl) fun _ _ => rfl
  · simp only [Kernel.setProc_parent] at hr
    by_cases hrq : r = q
    · subst hrq
      have hs : p = s := by simpa using hr
      exact hs ▸ hyounger
    · rw [Function.update_of_ne hrq] at hr
      exact data.order hr

theorem change_setParent (inv : Inv S.img w) (on : On l h w) (hheld : l.held (.proc q))
    (hwait : l.held .wait) (hctx : l.ctx = .proc p) (raised : Prepared S l.ctx q w.kernel) :
    Change S l w (w.kernel.setProc q fun s => { s with parent := some p }) := by
  obtain ⟨⟨⟨hreserved, hnumbered⟩, hpid⟩, hra⟩ := raised
  have hdead : ¬ (w.kernel.state q).Live := by
    rw [hreserved.state]
    exact id
  have hstate : (w.kernel.setProc q fun s => { s with parent := some p }).state =
      w.kernel.state := by
    simp [Function.update_eq_self]
  have sw : SlotWrite q w.kernel (w.kernel.setProc q fun s => { s with parent := some p }) :=
    .setProc _
  have owed : SlotOwed S l.ctx l.held q w.kernel
      (w.kernel.setProc q fun s => { s with parent := some p }) := by
    refine ⟨fun _ halive => absurd halive.live hdead, fun _ _ halive => ?_,
      fun r _ hr => ?_, fun hnot => absurd hwait hnot, fun hlive => absurd hlive hdead,
      fun _ _ => id⟩
    · rw [hstate] at halive
      exact absurd halive.live hdead
    · rw [hreserved.orphan] at hr
      cases hr
  refine sw.change inv on hheld (inv.data.setParent hdead (by rw [hreserved.state]; nofun)
    (hreserved.awake p hctx).1 (hnumbered.younger p hctx))
    (sw.others owed hheld (.inr (.same rfl rfl rfl)) fun _ => ⟨rfl, rfl⟩)
    (.inr (.inr (by rw [hstate]))) (fun harmed => ?_) (fun _ halive => ?_)
    (.inl (by rw [hstate]))
  · refine (inv.armed harmed).imp (fun hsleep => ?_) id
    exact absurd (by rw [hsleep.1]; trivial) hdead
  · rw [hstate] at halive
    exact absurd halive.live hdead

/-- A child that is no process yet does not wake its parent. -/
theorem calm_setParent (calm : Calm k.state k.parent k.phase) (hphase : k.phase p ≠ .armed)
    (hparent : k.parent q = none) :
    Calm (k.setProc q fun s => { s with parent := some p }).state
      (k.setProc q fun s => { s with parent := some p }).parent
      (k.setProc q fun s => { s with parent := some p }).phase := by
  intro r harmed
  obtain ⟨⟨s, hs⟩, hall⟩ := calm r harmed
  have hrp : r ≠ p := by
    rintro rfl
    exact hphase harmed
  have hback : ∀ t, (k.setProc q fun s => { s with parent := some p }).parent t = some r ↔
      k.parent t = some r := by
    intro t
    simp only [Kernel.setProc_parent]
    by_cases ht : t = q
    · subst ht
      simp [hparent, Ne.symm hrp]
    · rw [Function.update_of_ne ht]
  refine ⟨⟨s, (hback s).mpr hs⟩, fun t ht => ?_⟩
  simpa [Function.update_eq_self] using hall t ((hback t).mp ht)

/-! ## The process becomes runnable -/

section Start

variable {parent : Option Slot}

/-- `userinit` notes at the same time that the first process is there. -/
def Kernel.startBooted (q : Slot) (parent : Option Slot) (entry : Word) (k : Kernel) : Kernel :=
  { k.start q parent entry with booted := true }

theorem startBooted_eq (hbooted : k.booted = true) :
    k.startBooted q parent entry = k.start q parent entry := by
  obtain ⟨proc, nextpid, initproc, ticks, first, console, memory, shadow, born, booted,
    log, calls, senders, sending⟩ := k
  cases hbooted
  rfl

theorem startBooted_proc (q : Slot) (parent : Option Slot) (entry : Word) (k : Kernel) :
    (k.startBooted q parent entry).proc = Function.update k.proc q
      { k.proc q with
        context := { (k.proc q).context with s0 := entry }, state := .runnable } := rfl

theorem startBooted_shadow (q : Slot) (parent : Option Slot) (entry : Word) (k : Kernel) :
    (k.startBooted q parent entry).shadow = Function.update k.shadow q
      { k.shadow q with
        creator := parent.map k.serial, entry, phase := .out, window := false,
        startedOn := false, calledOn := false, calledOff := false } := rfl

private theorem column_proc {β : Type} (column : Proc → β) (q : Slot)
    (parent : Option Slot) (entry : Word) (k : Kernel) :
    (fun r => column ((k.startBooted q parent entry).proc r)) =
      Function.update (fun r => column (k.proc r)) q (column { k.proc q with
        context := { (k.proc q).context with s0 := entry }, state := .runnable }) :=
  Function.comp_update ..

private theorem column_shadow {β : Type} (column : Shadow → β) (q : Slot)
    (parent : Option Slot) (entry : Word) (k : Kernel) :
    (fun r => column ((k.startBooted q parent entry).shadow r)) =
      Function.update (fun r => column (k.shadow r)) q (column { k.shadow q with
        creator := parent.map k.serial, entry, phase := .out, window := false,
        startedOn := false, calledOn := false, calledOff := false }) :=
  Function.comp_update ..

variable (q parent entry k)

@[simp] theorem startBooted_state : (k.startBooted q parent entry).state =
    Function.update k.state q .runnable :=
  column_proc Proc.state q parent entry k

@[simp] theorem startBooted_parent : (k.startBooted q parent entry).parent = k.parent :=
  (column_proc Proc.parent q parent entry k).trans (Function.update_eq_self ..)

@[simp] theorem startBooted_pid : (k.startBooted q parent entry).pid = k.pid :=
  (column_proc Proc.pid q parent entry k).trans (Function.update_eq_self ..)

@[simp] theorem startBooted_xstate : (k.startBooted q parent entry).xstate = k.xstate :=
  (column_proc Proc.xstate q parent entry k).trans (Function.update_eq_self ..)

@[simp] theorem startBooted_serial : (k.startBooted q parent entry).serial = k.serial :=
  (column_shadow Shadow.serial q parent entry k).trans (Function.update_eq_self ..)

@[simp] theorem startBooted_creator : (k.startBooted q parent entry).creator =
    Function.update k.creator q (parent.map k.serial) :=
  column_shadow Shadow.creator q parent entry k

@[simp] theorem startBooted_phase : (k.startBooted q parent entry).phase =
    Function.update k.phase q .out :=
  column_shadow Shadow.phase q parent entry k

@[simp] theorem startBooted_log : (k.startBooted q parent entry).log =
    .forked (parent.map k.serial) (k.serial q) :: k.log := rfl

variable {q parent entry k}

theorem startBooted_write : SlotWrite q k (k.startBooted q parent entry) where
  proc _ hne := by rw [startBooted_proc, Function.update_of_ne hne]
  shadow _ hne := by rw [startBooted_shadow, Function.update_of_ne hne]
  log := List.suffix_cons ..

/-- The first process is number one, and from then on there is an `initproc`. -/
def Bootable (q : Slot) (k : Kernel) : Prop :=
  k.booted = true ∨ k.initproc = some q ∧ k.serial q = 1

theorem Data.startBooted (data : Data img k) (hstate : k.state q = .used)
    (hnumbered : Numbered c q k) (hpid : k.pid q = pidOf (k.serial q))
    (hparent : k.parent q = c.slot) (hboot : Bootable q k) :
    Data img (k.startBooted q c.slot entry) := by
  have hdead : ¬ (k.state q).Live := by
    rw [hstate]
    exact id
  refine ⟨?_, ?_, fun r => ?_, ?_, nofun, fun {r s} hr => ?_, fun _ i hi => ?_⟩
  · rw [startBooted_state, startBooted_parent]
    exact data.tree.fork (hboot.imp (fun hb => ⟨hb, rfl⟩) fun hi => ⟨hi.1, rfl⟩)
  · rw [startBooted_state, startBooted_pid, startBooted_serial]
    exact data.pids.fork hnumbered.serial hpid
  · by_cases hr : r = q
    · subst hr
      rw [startBooted_proc, startBooted_shadow, Function.update_self, Function.update_self]
      exact ⟨(data.slot r).killed, nofun, nofun, nofun, fun _ _ => rfl, nofun⟩
    · rw [startBooted_write.proc r hr, startBooted_write.shadow r hr]
      exact data.slot r
  · rw [startBooted_state, startBooted_parent, startBooted_xstate, startBooted_serial,
      startBooted_creator, startBooted_phase, startBooted_log]
    refine data.hist.fork hdead (data.pids.le q) hnumbered.unforked ?_
    cases c with
    | proc p => exact ⟨p, hparent, rfl⟩
    | cpu h => exact hparent
  · rw [startBooted_parent] at hr
    rw [startBooted_serial]
    exact data.order hr
  · rw [startBooted_serial]
    have hi' : k.initproc = some i := hi
    rcases hboot with hb | ⟨hq, hone⟩
    · exact data.root hb i hi'
    · rw [hq] at hi'
      cases hi'
      exact hone

theorem owed_startBooted {held : Lock → Prop} (data : Data img k)
    (raised : Raised S c q k) : SlotOwed S c held q k (k.startBooted q c.slot entry) := by
  have hdead : ¬ (k.state q).Live := by
    rw [raised.used]
    exact id
  refine ⟨fun _ halive => absurd halive.live hdead, fun _ _ _ => ?_, fun r hr hparent => ?_,
    fun _ => ⟨by rw [startBooted_parent], ?_, ?_⟩, fun hlive => absurd hlive hdead,
    fun r hr hlog hforked => ?_⟩
  · rw [Kernel.context, startBooted_proc, Function.update_self]
    exact raised.ra
  · rw [raised.parent, Ctx.slot_eq] at hparent
    exact absurd hparent hr
  · rw [startBooted_state, Function.update_self, raised.used]
    exact iff_of_false (by simp) (by simp)
  · rw [startBooted_phase, Function.update_self]
    simp
  · obtain ⟨creator, hmem⟩ := hforked
    rw [startBooted_log, List.mem_cons] at hmem
    rcases hmem with heq | hmem
    · injection heq with _ hserial
      have hserial' : k.serial r = k.serial q := hserial
      exact hr (data.pids.inj hserial' (by rw [hserial']; exact raised.serial))
    · exact hlog ⟨creator, hmem⟩

theorem change_startBooted (inv : Inv S.img w) (on : On l h w) (hheld : l.held (.proc q))
    (raised : Raised S l.ctx q w.kernel) (hboot : Bootable q w.kernel)
    (hmain : w.kernel.booted = true ∨ l.ctx = .cpu S.hart) :
    Change S l w (w.kernel.startBooted q l.ctx.slot entry) := by
  have sw : SlotWrite q w.kernel (w.kernel.startBooted q l.ctx.slot entry) :=
    startBooted_write
  have owed : SlotOwed S l.ctx l.held q w.kernel
      (w.kernel.startBooted q l.ctx.slot entry) :=
    owed_startBooted inv.data raised
  have hboot' : l.ctx = .cpu S.hart ∧ (∀ r, ¬ (w.kernel.state r).Live) ∨
      BootKept w.kernel (w.kernel.startBooted q l.ctx.slot entry) := by
    cases hb : w.kernel.booted with
    | true => exact .inr ⟨hb.symm, rfl, fun _ => rfl⟩
    | false =>
        rw [hb] at hmain
        exact .inl ⟨hmain.resolve_left (by simp), inv.data.tree.unbooted hb⟩
  have hnot : w.kernel.state q ≠ .running := by
    rw [raised.used]
    simp
  refine sw.change inv on hheld (inv.data.startBooted raised.used raised.toNumbered raised.pid
    raised.parent hboot) (sw.others owed hheld hboot' fun _ => ⟨rfl, rfl⟩)
    (.inr (.inl hnot)) (fun harmed => ?_) (fun _ _ _ => ?_) (.inr ⟨?_, ?_⟩)
  · rw [startBooted_phase, Function.update_self] at harmed
    cases harmed
  · rw [Kernel.phase, startBooted_shadow, Function.update_self]
    exact ⟨rfl, rfl, rfl, rfl⟩
  · rw [startBooted_state, Function.update_self]
    simp
  · rw [startBooted_state, Function.update_self, raised.used]
    exact .create

theorem frame_startBooted {full : Prop} (data : Data img k) (raised : Raised S c q k)
    (hbooted : k.booted = true) :
    Frame S full c (fun _ => False) k (k.startBooted q c.slot entry) := by
  have owed : SlotOwed S c (fun _ => False) q k (k.startBooted q c.slot entry) :=
    owed_startBooted data raised
  refine startBooted_write.frame owed raised.ne id ⟨hbooted.symm, rfl, fun _ => rfl⟩
    ⟨rfl, rfl⟩ fun r _ hr => ?_
  rw [startBooted_parent, startBooted_serial, startBooted_pid]
  exact ⟨hr, rfl, rfl⟩

end Start

/-! ## The answer of create_process -/

/-- `create_process` answers the pid of a process made since the history was `log`. -/
def Gives (log : List Event) (creator : Option Nat) (pid : CInt) (k : Kernel) : Prop :=
  ∃ child, Since log (.created creator child pid) k ∧ ¬ HasForked log child

theorem HasForked.of_suffix {log log' : List Event} {child : Nat} (hforked : HasForked log child)
    (hlog : log <:+ log') : HasForked log' child :=
  hforked.imp fun _ hmem => hlog.mem hmem

/-- What the creator knows of the process number `child` when it has given the slot's lock
back. -/
structure Born (c : Ctx H) (q : Slot) (child : Nat) (k : Kernel) : Prop where
  serial : k.serial q = child
  pid : k.pid q = pidOf child
  forked : Event.forked (c.slot.map k.serial) child ∈ k.log
  child : ∀ p, c = .proc p → (k.state p).Alive ∧ k.parent q = some p
  orphan : c.slot = none → (k.state q).Live ∧ k.creator q = none

theorem stable_born {child : Nat} : Stable S l (Born l.ctx q child) := by
  intro k k' frame born
  have hforked := frame.forever.log.mem born.forked
  cases hc : l.ctx with
  | proc p =>
      have hown := frame.own
      rw [hc] at hown born hforked
      obtain ⟨halive, hparent⟩ := born.child p rfl
      have kept := hown halive
      obtain ⟨hparent', hserial, hpid⟩ := kept.children q hparent
      obtain ⟨phase, heq, -⟩ := kept.shadow
      have hserial' : k'.serial p = k.serial p := by rw [Kernel.serial, heq]; rfl
      refine ⟨hserial.trans born.serial, hpid.trans born.pid, ?_, fun r hr => ?_,
        fun hnone => ?_⟩
      · simpa [Ctx.slot, hserial'] using hforked
      · cases hr
        exact ⟨kept.alive, hparent'⟩
      · cases hnone
  | cpu h =>
      rw [hc] at born hforked
      obtain ⟨hlive, hcreator⟩ := born.orphan rfl
      obtain ⟨hlive', hcreator', hserial, hpid⟩ := frame.forever.orphan q hlive hcreator
      exact ⟨hserial.trans born.serial, hpid.trans born.pid, by simpa [Ctx.slot] using hforked,
        (by simp), fun _ => ⟨hlive', hcreator'⟩⟩

theorem Raised.born (raised : Raised S c q k) :
    Born c q (k.serial q) (k.startBooted q c.slot entry) where
  serial := by rw [startBooted_serial]
  pid := by
    rw [startBooted_pid]
    exact raised.pid
  forked := by
    rw [startBooted_serial, startBooted_log]
    exact List.mem_cons_self
  child p hp := by
    have hpq : p ≠ q := by
      rintro rfl
      exact raised.ne hp
    rw [startBooted_state, startBooted_parent, Function.update_of_ne hpq, raised.parent, hp]
    exact ⟨(raised.awake p hp).1, rfl⟩
  orphan hc := by
    rw [startBooted_state, startBooted_creator, Function.update_self, Function.update_self, hc]
    exact ⟨trivial, rfl⟩

variable [DecidableEq H]

/-- The parent is set under `wait_lock`, if there is a current process. -/
theorem Triple.setParent (bare : l.Bare) (hF : Stable S l F) (hctx : l.ctx = .proc p) :
    Triple S (l.one (.proc q)) (fun k => F k ∧ Prepared S l.ctx q k) (do
        Process.acquire .wait
        Process.writeProc q fun s => { s with parent := some p }
        Process.release .wait : Code H Unit) (fun _ => l.one (.proc q))
      fun _ k => F k ∧ Raised S l.ctx q k := by
  have hheld := l.held_one (.proc q)
  have hpre : Stable S (l.one (.proc q)) fun k => F k ∧ Prepared S l.ctx q k :=
    (hF.one bare _).and (stable_prepared (l := l.one (.proc q)) hheld)
  have hpost : Stable S (l.one (.proc q)) fun k => F k ∧ Raised S l.ctx q k :=
    (hF.one bare _).and (stable_raised (l := l.one (.proc q)) hheld)
  have hwait : Local.held { l.one (.proc q) with locks := .wait :: (l.one (.proc q)).locks }
      .wait := .inl (by simp)
  have hcalm : Stable S { l.one (.proc q) with locks := .wait :: (l.one (.proc q)).locks }
      fun k => Calm k.state k.parent k.phase :=
    fun _ _ frame hk => (frame.wait hwait).calm hk
  refine (Triple.acquire hpre bare.half bare.depth (by simp [Local.one])).bind fun _ => ?_
  refine Triple.bind (G := fun _ k => (F k ∧ Raised S l.ctx q k) ∧
      Calm k.state k.parent k.phase)
    (.write ((hpre.cons _).and (Acquired.stable hwait)) fun h w inv on hf => ?_) fun _ => ?_
  · obtain ⟨⟨hf, hprepared⟩, hacquired⟩ := hf
    obtain ⟨⟨⟨hreserved, hnumbered⟩, hpid⟩, hra⟩ := hprepared
    have hdead : ¬ (w.kernel.state q).Live := by
      rw [hreserved.state]
      exact id
    have hne := hreserved.ne id
    refine ⟨change_setParent inv on (.inl (by simp [Local.one])) hwait hctx
      ⟨⟨⟨hreserved, hnumbered⟩, hpid⟩, hra⟩, ⟨?_, ⟨hnumbered.setProc _, ?_,
        awake_setProc hne hreserved.awake, ?_, ?_, ?_⟩⟩,
      calm_setParent (hacquired.calm rfl) (hreserved.awake p hctx).2 hreserved.orphan⟩
    · have frame : Frame S False l.ctx (fun _ => False) w.kernel
          (w.kernel.setProc q fun s => { s with parent := some p }) := by
        refine ⟨(SlotWrite.setProc _).ownKept hne (.same rfl rfl rfl) fun r _ hr => ?_,
          fun _ => False.elim, False.elim, False.elim, List.suffix_rfl, fun r hlive hc => ?_⟩
        · rw [hreserved.orphan] at hr
          cases hr
        · have hrq : r ≠ q := by
            rintro rfl
            exact hdead hlive
          simpa [hrq, hc] using hlive
      exact hF _ _ (frame.weaken id fun lk hlk => bare.held lk hlk) hf
    · simpa using hreserved.state
    · simpa using hpid
    · simpa using hra
    · simp [hctx, Ctx.slot]
  · refine Triple.releaseLast ((hpost.cons _).and hcalm) hpost (fun _ hk => hk.1) bare.half
      bare.depth bare.proc fun h w inv on hk => on.releasable inv (fun _ => hk.2) (by simp) ?_
    intro r hr _ harmed
    exact absurd harmed (hk.1.2.awake r hr).2

section Create

variable {log₀ : List Event}

/-- The last steps of `create_process`, with the parent set or not. -/
theorem Triple.startProcess (entry : Word) (bare : l.Bare) (hF : Stable S l F)
    (hbooted : ∀ k, Data S.img k → F k → k.booted = true) (hlog : ∀ k, F k → log₀ <:+ k.log) :
    Triple S (l.one (.proc q)) (fun k => F k ∧ Raised S l.ctx q k) (do
        let child ← Process.read fun k => (k.shadow q).serial
        Process.write (Kernel.start q l.ctx.slot entry)
        Process.release (.proc q)
        Process.act fun _ w =>
          ((w.kernel.proc q).pid,
            { w with kernel := w.kernel.recordCreated q l.ctx.slot child }) : Code H CInt)
      (fun _ => l) fun pid k => F k ∧ Gives log₀ (l.ctx.slot.map k.serial) pid k := by
  have hheld := l.held_one (.proc q)
  have hraised : Stable S (l.one (.proc q)) fun k => F k ∧ Raised S l.ctx q k :=
    (hF.one bare _).and (stable_raised (l := l.one (.proc q)) hheld)
  refine Triple.bind (.read (K := fun child k => (F k ∧ Raised S l.ctx q k) ∧
    k.serial q = child) hraised fun _ _ _ _ hf => ⟨hf, rfl⟩) fun child => ?_
  have hserial : Stable S (l.one (.proc q)) fun k => k.serial q = child :=
    fun _ _ frame heq => (frame.slot q hheld).serial.trans heq
  have hborn : Stable S l fun k => (F k ∧ Born l.ctx q child k) ∧ ¬ HasForked log₀ child :=
    (hF.and stable_born).and .const
  refine Triple.bind (G := fun _ k => ((F k ∧ Born l.ctx q child k) ∧ ¬ HasForked log₀ child) ∧
      l.ctx ≠ .proc q) (.write (hraised.and hserial) fun h w inv on hf => ?_) fun _ => ?_
  · obtain ⟨⟨hf, raised⟩, rfl⟩ := hf
    have hb := hbooted _ inv.data hf
    have hstart : w.kernel.startBooted q l.ctx.slot entry =
        w.kernel.start q l.ctx.slot entry := startBooted_eq hb
    rw [← hstart]
    refine ⟨change_startBooted inv on hheld raised (.inl hb) (.inl hb), ⟨⟨?_, raised.born⟩,
      fun hforked => raised.unforked (hforked.of_suffix (hlog _ hf))⟩, raised.ne⟩
    exact hF _ _ ((frame_startBooted inv.data raised hb).weaken id
      fun lk hlk => bare.held lk hlk) hf
  refine (Triple.releaseSlot bare ((hborn.one bare _).and .const) hborn (fun _ hk => hk.1)
    fun _ hk hc => absurd hc hk.2).bind fun _ => ?_
  refine .readWrite (f := fun k => ((k.proc q).pid, k.recordCreated q l.ctx.slot child)) hborn
    fun h w inv on ⟨⟨hf, born⟩, hnew⟩ => ⟨?_, hF _ _ (frame_record.weaken id
      fun lk hlk => bare.held lk hlk) hf, child, .record (hlog _ hf), hnew⟩
  exact change_record inv on trivial ⟨born.pid, born.forked⟩ (hbooted _ inv.data hf)

theorem Triple.createWith (bare : l.Bare) (hF : Stable S l F)
    (hbooted : ∀ k, Data S.img k → F k → k.booted = true) (hlog : ∀ k, F k → log₀ <:+ k.log) :
    Triple S (l.one (.proc q)) (fun k => F k ∧ Prepared S l.ctx q k)
      (Process.createWith q entry) (fun _ => l)
      fun pid k => F k ∧ Gives log₀ (l.ctx.slot.map k.serial) pid k := by
  have hheld := l.held_one (.proc q)
  have hpre : Stable S (l.one (.proc q)) fun k => F k ∧ Prepared S l.ctx q k :=
    (hF.one bare _).and (stable_prepared (l := l.one (.proc q)) hheld)
  refine (Triple.myproc hpre bare.half).bind fun r => .known fun hr => ?_
  have hr' : r = l.ctx.slot := hr.trans bare.proc
  have last := Triple.startProcess (q := q) entry bare hF hbooted hlog
  subst hr'
  cases hc : l.ctx with
  | proc p =>
      have parent := Triple.setParent (q := q) bare hF hc
      rw [hc] at last parent
      have whole := parent.bind fun _ => last
      simp only [bind_assoc] at whole
      exact whole
  | cpu h =>
      rw [hc] at last
      refine last.pre fun k hk => ⟨hk.1, ?_⟩
      obtain ⟨⟨⟨hreserved, hnumbered⟩, hpid⟩, hra⟩ := hk.2
      exact ⟨hnumbered, hreserved.state, hreserved.awake, hpid, hra, hreserved.orphan⟩

theorem Triple.createProcess (bare : l.Bare) (hF : Stable S l F)
    (hawake : ∀ k, F k → ∀ p, l.ctx = .proc p → Awake p k)
    (hbooted : ∀ k, Data S.img k → F k → k.booted = true) (hlog : ∀ k, F k → log₀ <:+ k.log) :
    Triple S l F (Process.createProcess S.img entry) (fun _ => l)
      fun pid k => F k ∧ Gives log₀ (l.ctx.slot.map k.serial) pid k := by
  have hpid : ∀ k q, Data S.img k → F k → Reserved l.ctx q .unused k →
      F (k.pidTaken q) := by
    intro k q data hf reserved
    have hdead : ¬ (k.state q).Live := by
      rw [reserved.state]
      exact id
    exact hF _ _ ((frame_pidTaken (reserved.ne id) hdead reserved.orphan
      (hbooted k data hf)).weaken id fun lk hlk => bare.held lk hlk) hf
  refine (Triple.allocProcess bare hF hF hawake hpid fun k data hf =>
    .inl (hbooted k data hf)).bind fun r => ?_
  cases r with
  | none => exact .panic (by decide)
  | some q => exact (Triple.createWith bare hF hbooted hlog).pre fun k hk => hk.2 q rfl

end Create

/-! ## The first process -/

/-- The data before the first process exists, when `n` pids have been taken. -/
structure Unbooted (n : Nat) (k : Kernel) : Prop where
  booted : k.booted = false
  initproc : k.initproc = none
  born : k.born = n

omit [DecidableEq H] in
theorem stable_unbooted {n : Nat} (hctx : l.ctx = .cpu S.hart) : Stable S l (Unbooted n) := by
  intro k k' frame hk
  have hown := frame.own
  rw [hctx] at hown
  have boot := hown rfl
  exact ⟨boot.booted.trans hk.booted, boot.initproc.trans hk.initproc,
    (boot.born hk.booted).trans hk.born⟩

omit [DecidableEq H] in
theorem stable_booted (hctx : l.ctx = .cpu S.hart) :
    Stable S l fun k => k.booted = true := by
  intro k k' frame hk
  have hown := frame.own
  rw [hctx] at hown
  exact (hown rfl).booted.trans hk

/-- The data when the first process is named but does not run yet. -/
structure Named (q : Slot) (k : Kernel) : Prop where
  booted : k.booted = false
  initproc : k.initproc = some q
  born : k.born = 1

omit [DecidableEq H] in
theorem stable_named (hctx : l.ctx = .cpu S.hart) : Stable S l (Named q) := by
  intro k k' frame hk
  have hown := frame.own
  rw [hctx] at hown
  have boot := hown rfl
  exact ⟨boot.booted.trans hk.booted, boot.initproc.trans hk.initproc,
    (boot.born hk.booted).trans hk.born⟩

omit [DecidableEq H] in
theorem change_initproc (inv : Inv S.img w) (on : On l h w) (hctx : l.ctx = .cpu S.hart)
    (hbooted : w.kernel.booted = false) (r : Option Slot) :
    Change S l w { w.kernel with initproc := r } := by
  have hdead := inv.data.tree.unbooted hbooted
  have hlog := inv.data.start hbooted
  have data : Data S.img { w.kernel with initproc := r } := by
    refine ⟨⟨inv.data.tree.parent_alive, fun _ => hdead, fun hb => ?_⟩, inv.data.pids,
      inv.data.slot, ?_, inv.data.start, inv.data.order, fun hb => ?_⟩
    · have hb' : w.kernel.booted = true := hb
      rw [hbooted] at hb'
      cases hb'
    · change Hist w.kernel.state w.kernel.parent w.kernel.xstate r w.kernel.serial
        w.kernel.creator w.kernel.phase w.kernel.born w.kernel.log
      rw [hlog]
      exact Hist.nothing hdead
    · have hb' : w.kernel.booted = true := hb
      rw [hbooted] at hb'
      cases hb'
  refine .of_others inv on data ?_ (fun _ => .inl rfl) (fun harmed => .inl ⟨harmed, rfl, rfl⟩)
    (fun hq halive => inv.fresh hq halive) fun _ => .inl rfl
  refine ⟨fun c' hne => ?_, fun p _ hd halive => absurd halive hd,
    fun p _ => ⟨⟨w.kernel.parent p, rfl⟩, id, rfl, rfl, rfl, fun _ => rfl, id⟩,
    fun _ => ⟨rfl, fun _ => .rfl, fun _ => id⟩, fun _ => ⟨rfl, rfl⟩, List.suffix_rfl,
    fun q hlive => absurd hlive (hdead q)⟩
  cases c' with
  | proc p => exact fun halive => absurd halive.live (hdead p)
  | cpu h' =>
      rintro rfl
      exact absurd hctx.symm hne

theorem userinit_start (hra : (k.context q).ra = img.forkret) :
    { (k.setProc q fun s =>
        { s with
          context := { s.context with s0 := img.initTask, ra := img.forkret }
          state := .runnable }).fork q none img.initTask with booted := true } =
      k.startBooted q none img.initTask := by
  have hcontext : (k.proc q).context.ra = img.forkret := hra
  simp only [Kernel.startBooted, Kernel.start, Kernel.fork, Kernel.setProc, ← hcontext]

theorem Triple.userinit (bare : l.Bare) (hctx : l.ctx = .cpu S.hart) :
    Triple S l (Unbooted 0) (Process.userinit S.img : Code H Unit) (fun _ => l)
      fun _ k => k.booted = true := by
  have hpid : ∀ k q, Data S.img k → Unbooted 0 k → Reserved l.ctx q .unused k →
      Unbooted 1 (k.pidTaken q) := by
    intro k q _ hk _
    exact ⟨hk.booted, hk.initproc, congrArg (· + 1) hk.born⟩
  refine (Triple.allocProcess bare (stable_unbooted hctx) (stable_unbooted hctx)
    (fun _ _ p hp => by rw [hctx] at hp; cases hp) hpid fun _ _ _ => .inr hctx).bind fun r => ?_
  cases r with
  | none =>
      have hbooted : Stable S l fun k => k.booted = false := by
        intro k k' frame hk
        have hown := frame.own
        rw [hctx] at hown
        exact (hown rfl).booted.trans hk
      refine Triple.bind (G := fun _ _ => True) (Triple.pre (.write hbooted
        fun h w inv on hf => ⟨change_initproc inv on hctx hf none, trivial⟩) fun k hk => ?_)
        fun _ => .panic (by decide)
      exact hk.1.elim Unbooted.booted Unbooted.booted
  | some q =>
      have hheld := l.held_one (.proc q)
      have hpre : Stable S (l.one (.proc q)) fun k => Unbooted 1 k ∧ Prepared S l.ctx q k :=
        ((stable_unbooted hctx).one bare _).and
          (stable_prepared (l := l.one (.proc q)) hheld)
      have hnamed : Stable S (l.one (.proc q)) fun k => Named q k ∧ Raised S l.ctx q k :=
        ((stable_named hctx).one bare _).and (stable_raised (l := l.one (.proc q)) hheld)
      refine Triple.bind (G := fun _ k => Named q k ∧ Raised S l.ctx q k) (Triple.pre
        (.write hpre fun h w inv on hf => ?_) fun k hk => hk.2 q rfl) fun _ => ?_
      · obtain ⟨hf, ⟨⟨hreserved, hnumbered⟩, hp⟩, hra⟩ := hf
        refine ⟨change_initproc inv on hctx hf.booted (some q),
          ⟨hf.booted, rfl, hf.born⟩, ⟨hnumbered.serial, hnumbered.unforked,
            hnumbered.younger⟩, hreserved.state, hreserved.awake, hp, hra, ?_⟩
        rw [hctx]
        exact hreserved.orphan
      refine Triple.bind (G := fun _ k => k.booted = true ∧ l.ctx ≠ .proc q)
        (.write hnamed fun h w inv on hf => ?_) fun _ => ?_
      · obtain ⟨hf, raised⟩ := hf
        have hle := inv.data.pids.le q
        have hserial := raised.serial
        have hone : w.kernel.serial q = 1 := by
          rw [hf.born] at hle
          omega
        have change : Change S (l.one (.proc q)) w
            (w.kernel.startBooted q l.ctx.slot S.img.initTask) :=
          change_startBooted inv on hheld raised (.inr ⟨hf.initproc, hone⟩) (.inr hctx)
        rw [hctx] at change
        rw [userinit_start raised.ra]
        exact ⟨change, rfl, raised.ne⟩
      have hbooted := stable_booted (S := S) (l := l) hctx
      refine (Triple.releaseSlot bare ((hbooted.one bare _).and .const) hbooted
        (fun _ hk => hk.1) fun _ hk hc => absurd hc hk.2).bind fun _ => ?_
      refine Triple.bind (G := fun _ k => k.booted = true)
        (.readProc hbooted fun _ _ _ _ => id) fun pid => ?_
      exact Triple.printf hbooted bare.half bare.depth (by simp [bare.locks]) bare.proc _

end Xv6Kernel.Process
