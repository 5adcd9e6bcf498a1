import Xv6Kernel.Process.Machine

/-!
# The invariant of the process table

The data of all slots satisfies `Data` in every state, whoever holds which lock.
The parts are stated over the columns of the process table, so that a write to
one column leaves the others' parts alone.
-/

namespace Xv6Kernel.Process

open Xv6Kernel.Foundation Xv6Kernel.Mm

/-! ## Columns -/

namespace Kernel

section Columns

variable (k : Kernel) (p : Slot)

def state : ProcState := (k.proc p).state
def chan : Option Chan := (k.proc p).chan
def parent : Option Slot := (k.proc p).parent
def pid : CInt := (k.proc p).pid
def xstate : CInt := (k.proc p).xstate
def context : Context := (k.proc p).context
def serial : Nat := (k.shadow p).serial
def creator : Option Nat := (k.shadow p).creator
def phase : Phase := (k.shadow p).phase

end Columns

variable (k : Kernel) (p q : Slot) (f : Proc → Proc) (g : Shadow → Shadow)
  (event : Event)

@[simp] theorem proc_state : (k.proc p).state = k.state p := rfl
@[simp] theorem proc_chan : (k.proc p).chan = k.chan p := rfl
@[simp] theorem proc_parent : (k.proc p).parent = k.parent p := rfl
@[simp] theorem proc_pid : (k.proc p).pid = k.pid p := rfl
@[simp] theorem proc_xstate : (k.proc p).xstate = k.xstate p := rfl
@[simp] theorem proc_context : (k.proc p).context = k.context p := rfl
@[simp] theorem shadow_serial : (k.shadow p).serial = k.serial p := rfl
@[simp] theorem shadow_creator : (k.shadow p).creator = k.creator p := rfl
@[simp] theorem shadow_phase : (k.shadow p).phase = k.phase p := rfl

@[simp] theorem setProc_proc_self : (k.setProc p f).proc p = f (k.proc p) :=
  Function.update_self ..

theorem setProc_proc_of_ne {p q : Slot} (h : q ≠ p) :
    (k.setProc p f).proc q = k.proc q :=
  Function.update_of_ne h _ _

@[simp] theorem setShadow_shadow_self :
    (k.setShadow p g).shadow p = g (k.shadow p) :=
  Function.update_self ..

theorem setShadow_shadow_of_ne {p q : Slot} (h : q ≠ p) :
    (k.setShadow p g).shadow q = k.shadow q :=
  Function.update_of_ne h _ _

private theorem column_setProc {β : Type} (column : Proc → β) :
    (fun q => column ((k.setProc p f).proc q)) =
      Function.update (fun q => column (k.proc q)) p (column (f (k.proc p))) :=
  Function.comp_update ..

private theorem column_setShadow {β : Type} (column : Shadow → β) :
    (fun q => column ((k.setShadow p g).shadow q)) =
      Function.update (fun q => column (k.shadow q)) p (column (g (k.shadow p))) :=
  Function.comp_update ..

@[simp] theorem setProc_state :
    (k.setProc p f).state = Function.update k.state p (f (k.proc p)).state :=
  column_setProc k p f Proc.state
@[simp] theorem setProc_chan :
    (k.setProc p f).chan = Function.update k.chan p (f (k.proc p)).chan :=
  column_setProc k p f Proc.chan
@[simp] theorem setProc_parent :
    (k.setProc p f).parent = Function.update k.parent p (f (k.proc p)).parent :=
  column_setProc k p f Proc.parent
@[simp] theorem setProc_pid :
    (k.setProc p f).pid = Function.update k.pid p (f (k.proc p)).pid :=
  column_setProc k p f Proc.pid
@[simp] theorem setProc_xstate :
    (k.setProc p f).xstate = Function.update k.xstate p (f (k.proc p)).xstate :=
  column_setProc k p f Proc.xstate
@[simp] theorem setProc_context :
    (k.setProc p f).context = Function.update k.context p (f (k.proc p)).context :=
  column_setProc k p f Proc.context

@[simp] theorem setShadow_serial :
    (k.setShadow p g).serial = Function.update k.serial p (g (k.shadow p)).serial :=
  column_setShadow k p g Shadow.serial
@[simp] theorem setShadow_creator :
    (k.setShadow p g).creator = Function.update k.creator p (g (k.shadow p)).creator :=
  column_setShadow k p g Shadow.creator
@[simp] theorem setShadow_phase :
    (k.setShadow p g).phase = Function.update k.phase p (g (k.shadow p)).phase :=
  column_setShadow k p g Shadow.phase

@[simp] theorem setProc_shadow : (k.setProc p f).shadow = k.shadow := rfl
@[simp] theorem setProc_serial : (k.setProc p f).serial = k.serial := rfl
@[simp] theorem setProc_creator : (k.setProc p f).creator = k.creator := rfl
@[simp] theorem setProc_phase : (k.setProc p f).phase = k.phase := rfl
@[simp] theorem setProc_born : (k.setProc p f).born = k.born := rfl
@[simp] theorem setProc_nextpid : (k.setProc p f).nextpid = k.nextpid := rfl
@[simp] theorem setProc_initproc : (k.setProc p f).initproc = k.initproc := rfl
@[simp] theorem setProc_booted : (k.setProc p f).booted = k.booted := rfl
@[simp] theorem setProc_log : (k.setProc p f).log = k.log := rfl

@[simp] theorem setShadow_proc : (k.setShadow p g).proc = k.proc := rfl
@[simp] theorem setShadow_state : (k.setShadow p g).state = k.state := rfl
@[simp] theorem setShadow_chan : (k.setShadow p g).chan = k.chan := rfl
@[simp] theorem setShadow_parent : (k.setShadow p g).parent = k.parent := rfl
@[simp] theorem setShadow_pid : (k.setShadow p g).pid = k.pid := rfl
@[simp] theorem setShadow_xstate : (k.setShadow p g).xstate = k.xstate := rfl
@[simp] theorem setShadow_context : (k.setShadow p g).context = k.context := rfl
@[simp] theorem setShadow_born : (k.setShadow p g).born = k.born := rfl
@[simp] theorem setShadow_nextpid : (k.setShadow p g).nextpid = k.nextpid := rfl
@[simp] theorem setShadow_initproc : (k.setShadow p g).initproc = k.initproc := rfl
@[simp] theorem setShadow_booted : (k.setShadow p g).booted = k.booted := rfl
@[simp] theorem setShadow_log : (k.setShadow p g).log = k.log := rfl

@[simp] theorem record_proc : (k.record event).proc = k.proc := rfl
@[simp] theorem record_shadow : (k.record event).shadow = k.shadow := rfl
@[simp] theorem record_state : (k.record event).state = k.state := rfl
@[simp] theorem record_chan : (k.record event).chan = k.chan := rfl
@[simp] theorem record_parent : (k.record event).parent = k.parent := rfl
@[simp] theorem record_pid : (k.record event).pid = k.pid := rfl
@[simp] theorem record_xstate : (k.record event).xstate = k.xstate := rfl
@[simp] theorem record_context : (k.record event).context = k.context := rfl
@[simp] theorem record_serial : (k.record event).serial = k.serial := rfl
@[simp] theorem record_creator : (k.record event).creator = k.creator := rfl
@[simp] theorem record_phase : (k.record event).phase = k.phase := rfl
@[simp] theorem record_born : (k.record event).born = k.born := rfl
@[simp] theorem record_nextpid : (k.record event).nextpid = k.nextpid := rfl
@[simp] theorem record_initproc : (k.record event).initproc = k.initproc := rfl
@[simp] theorem record_booted : (k.record event).booted = k.booted := rfl
@[simp] theorem record_log : (k.record event).log = event :: k.log := rfl

end Kernel

/-! ## Processes that run, and processes that have been created -/

/-- The process has been made runnable and has not become a zombie. -/
def ProcState.Alive : ProcState → Prop
  | .sleeping | .runnable | .running => True
  | .unused | .used | .zombie => False

/-- The process has been made runnable and has not been freed. -/
def ProcState.Live : ProcState → Prop
  | .sleeping | .runnable | .running | .zombie => True
  | .unused | .used => False

@[simp] theorem alive_unused : ¬ ProcState.unused.Alive := id
@[simp] theorem alive_used : ¬ ProcState.used.Alive := id
@[simp] theorem alive_zombie : ¬ ProcState.zombie.Alive := id
@[simp] theorem alive_sleeping : ProcState.sleeping.Alive := trivial
@[simp] theorem alive_runnable : ProcState.runnable.Alive := trivial
@[simp] theorem alive_running : ProcState.running.Alive := trivial
@[simp] theorem live_unused : ¬ ProcState.unused.Live := id
@[simp] theorem live_used : ¬ ProcState.used.Live := id
@[simp] theorem live_sleeping : ProcState.sleeping.Live := trivial
@[simp] theorem live_runnable : ProcState.runnable.Live := trivial
@[simp] theorem live_running : ProcState.running.Live := trivial
@[simp] theorem live_zombie : ProcState.zombie.Live := trivial

theorem ProcState.Alive.live {s : ProcState} (h : s.Alive) : s.Live := by
  cases s <;> simp_all

theorem ProcState.live_iff {s : ProcState} : s.Live ↔ s.Alive ∨ s = .zombie := by
  cases s <;> simp

/-! ## The parts of the invariant -/

/-- A parent is a process that has not exited; `initproc` never exits. -/
structure Tree (state : Slot → ProcState) (parent : Slot → Option Slot)
    (initproc : Option Slot) (booted : Bool) : Prop where
  parent_alive : ∀ {q p}, parent q = some p → (state p).Alive
  unbooted : booted = false → ∀ p, ¬ (state p).Live
  init : booted = true → ∃ i, initproc = some i ∧ (state i).Alive

/-- The pid with a serial number. -/
def pidOf (serial : Nat) : CInt := BitVec.ofNat 32 serial

structure Pids (state : Slot → ProcState) (serial : Slot → Nat)
    (pid : Slot → CInt) (born : Nat) (nextpid : CInt) : Prop where
  next : nextpid = pidOf (born + 1)
  le : ∀ p, serial p ≤ born
  inj : ∀ {p q}, serial p = serial q → serial p ≠ 0 → p = q
  pos : ∀ {p}, (state p).Live → serial p ≠ 0
  pid : ∀ {p}, (state p).Live → pid p = pidOf (serial p)

/-- What a slot may look like. -/
structure SlotOk (img : Image) (p : Slot) (s : Proc) (g : Shadow) : Prop where
  killed : s.killed = 0
  unused : s.state = .unused → s.parent = none
  sleeping : s.state = .sleeping →
    g.phase = .out ∨ g.phase = .armed ∧ s.chan = some (.proc p)
  runnable : s.state = .runnable → g.phase ≠ .armed
  entry : s.state.Alive → s.context.ra = img.forkret → s.context.s0 = g.entry
  used : s.state = .used → g.serial ≠ 0 ∧ s.pid = pidOf g.serial

/-- Whoever sleeps for a child, or is about to, has one and no zombie child. -/
def Calm (state : Slot → ProcState) (parent : Slot → Option Slot)
    (phase : Slot → Phase) : Prop :=
  ∀ p, phase p = .armed →
    (∃ q, parent q = some p) ∧ ∀ q, parent q = some p → state q ≠ .zombie

/-! ## The history -/

def HasExited (log : List Event) (who : Nat) : Prop :=
  ∃ pid status, Event.exited who pid status ∈ log

def HasWaited (log : List Event) (child : Nat) : Prop :=
  ∃ who pid stored, Event.waited who child pid stored ∈ log

def HasForked (log : List Event) (child : Nat) : Prop :=
  ∃ creator, Event.forked creator child ∈ log

/-- `who` may reap `child`: it created it, or it is `initproc` and the creator
has exited. -/
def Inherits (init : Option Nat) (log : List Event) (who child : Nat) : Prop :=
  ∃ creator, Event.forked (some creator) child ∈ log ∧
    (creator = who ∨ init = some who ∧ HasExited log creator)

/-- What an event says about the events before it. -/
def EventOk (init : Option Nat) (log : List Event) : Event → Prop
  | .forked _ child => ¬ HasForked log child
  | .created creator child pid =>
      pid = pidOf child ∧ Event.forked creator child ∈ log
  | .exited who pid _ => pid = pidOf who ∧ HasForked log who ∧ ¬ HasExited log who
  | .waited who child pid stored =>
      pid = pidOf child ∧ ¬ HasWaited log child ∧ Inherits init log who child ∧
        ∃ status, Event.exited child pid status ∈ log ∧
          (stored = none ∨ stored = some status)
  | .childless _ children => children = []

/-- Every event fits the ones before it. -/
def LogOk (init : Option Nat) : List Event → Prop
  | [] => True
  | event :: log => EventOk init log event ∧ LogOk init log

structure Hist (state : Slot → ProcState) (parent : Slot → Option Slot)
    (xstate : Slot → CInt) (initproc : Option Slot) (serial : Slot → Nat)
    (creator : Slot → Option Nat) (phase : Slot → Phase) (born : Nat)
    (log : List Event) : Prop where
  ok : LogOk (initproc.map serial) log
  bound : ∀ {s}, HasForked log s → s ≤ born
  forked : ∀ {q}, (state q).Live → Event.forked (creator q) (serial q) ∈ log
  waited : ∀ {q}, (state q).Live → ¬ HasWaited log (serial q)
  running : ∀ {q}, (state q).Live → (∀ status, phase q ≠ .exiting status) →
    ¬ HasExited log (serial q)
  exiting : ∀ {q status}, (state q).Live → phase q = .exiting status →
    Event.exited (serial q) (pidOf (serial q)) status ∈ log
  zombie : ∀ {q}, state q = .zombie → phase q = .exiting (xstate q)
  orphan : ∀ {q}, (state q).Live → creator q = none → parent q = none
  parent : ∀ {q c}, (state q).Live → creator q = some c → ∃ p, parent q = some p ∧
    (serial p = c ∨ initproc = some p ∧ HasExited log c)
  reaped : ∀ {p c status}, (state p).Alive → phase p = .reaped c status →
    Event.exited c (pidOf c) status ∈ log ∧ ¬ HasWaited log c ∧
      (∀ q, (state q).Live → serial q ≠ c) ∧
      Inherits (initproc.map serial) log (serial p) c
  reaped_inj : ∀ {p p' c status status'}, (state p).Alive → (state p').Alive →
    phase p = .reaped c status → phase p' = .reaped c status' → p = p'

/-- What holds of the data in every state. -/
structure Data (img : Image) (k : Kernel) : Prop where
  tree : Tree k.state k.parent k.initproc k.booted
  pids : Pids k.state k.serial k.pid k.born k.nextpid
  slot : ∀ p, SlotOk img p (k.proc p) (k.shadow p)
  hist : Hist k.state k.parent k.xstate k.initproc k.serial k.creator k.phase k.born
    k.log
  start : k.booted = false → k.log = []
  /-- A parent is older than its children, and `initproc` is the oldest of all. -/
  order : ∀ {q p}, k.parent q = some p → k.serial p < k.serial q
  root : k.booted = true → ∀ i, k.initproc = some i → k.serial i = 1

/-! ## The state of all harts -/

variable {H : Type}

/-- A hart that takes interrupts holds no lock. -/
structure Quiet (w : World H) (h : H) : Prop where
  unlocked : ∀ lk, (w.lock lk).locked ≠ some h
  noff : (w.cpus h).noff = 0
  proc : (w.cpus h).proc = (w.cur h).slot

/-- A process that decided to sleep for a child sleeps, or is on its way there
with one of the two locks. -/
def GoesToSleep (w : World H) (p : Slot) : Prop :=
  (w.kernel.state p = .sleeping ∧ w.kernel.chan p = some (.proc p)) ∨
    ∃ h, w.cur h = .proc p ∧
      ((w.lock .wait).locked = some h ∨ (w.lock (.proc p)).locked = some h)

/-- A process whose context is a new one has done nothing yet. -/
def NotMoved (img : Image) (p : Slot) (k : Kernel) : Prop :=
  (k.context p).ra = img.forkret →
    k.phase p = .out ∧ (k.shadow p).window = false ∧
      (k.shadow p).calledOn = false ∧ (k.shadow p).calledOff = false

structure Inv (img : Image) (w : World H) : Prop where
  quiet : ∀ h, (w.csr h).sstatus.sie = true → Quiet w h
  lock_cpu : ∀ {lk h}, (w.lock lk).cpu = some h → (w.lock lk).locked = some h
  cur_cpu : ∀ {h h'}, w.cur h = .cpu h' → h' = h
  cur_inj : ∀ {h h' p}, w.cur h = .proc p → w.cur h' = .proc p → h = h'
  cur_state : ∀ {h p}, w.cur h = .proc p →
    w.kernel.state p = .running ∨ (w.lock (.proc p)).locked = some h
  proc_cur : ∀ {h p}, w.cur h = .proc p → (w.cpus h).proc = some p
  proc_held : ∀ {h p}, (w.cpus h).proc = some p →
    w.cur h = .proc p ∨ (w.lock (.proc p)).locked = some h
  proc_inj : ∀ {h h' p}, (w.cpus h).proc = some p → (w.cpus h').proc = some p → h = h'
  claimed : ∀ {p}, w.kernel.state p = .running → ∃ h, (w.cpus h).proc = some p
  calm : (w.lock .wait).locked = none →
    Calm w.kernel.state w.kernel.parent w.kernel.phase
  armed : ∀ {p}, w.kernel.phase p = .armed → GoesToSleep w p
  fresh : ∀ {p}, (∀ h, w.cur h ≠ .proc p) → (w.kernel.state p).Alive →
    NotMoved img p w.kernel
  data : Data img w.kernel

end Xv6Kernel.Process
