import Xv6Kernel.Process.Invariant
import Xv6Kernel.Process.Undisturbed
import Xv6Kernel.Process.WakeProtocol

/-!
# Sleepers and wakers

Processes on any number of harts that wait for a condition with `sleep`, or make it
true and call `wakeup`, always under one lock.  They run the kernel's own `sleep`,
`wakeup`, `yield` and `scheduler`, where taking a lock and releasing it are one step;
the code of the locks is the matter of `MutualExclusion`.
-/

namespace Xv6Kernel.Process

open Xv6Kernel.Foundation Xv6Kernel.Mm

variable {H : Type} [DecidableEq H] {α β : Type}

/-- What a process does next. -/
inductive Task where
  /-- Wait until the condition is true, and make it false again if `consume`. -/
  | await (consume : Bool)
  /-- Make the condition true and wake the sleepers. -/
  | make
  | spoil
  | yield

inductive SleepInstr (H : Type) : Type → Type 1 where
  | code {β : Type} (i : Instr H β) : SleepInstr H β
  | task : SleepInstr H Task
  | test : SleepInstr H Bool
  /-- The condition becomes `cond`. -/
  | put (cond : Bool) : SleepInstr H Unit
  /-- The process decides to sleep, for the history only. -/
  | arm : SleepInstr H Unit
  /-- The loop of a sleeper. -/
  | await : SleepInstr H Unit
  /-- `sleep` has returned. -/
  | slept : SleepInstr H Unit
  /-- The rest of the program. -/
  | more : SleepInstr H Empty

structure Sleepers (H : Type) where
  world : World H
  cond : Bool

namespace Sleepers

def run (a : Sleepers H) (world : World H) : Sleepers H := { a with world }

/-! ## The programs -/

/-- One attempt of `acquire`; it answers whether the lock was free. -/
def tryTake (lk : Lock) : Code H Bool :=
  act fun h w =>
    match (w.lock lk).locked with
    | none => (true, w.taken h lk)
    | some _ => (false, w)

def takeBody (lk : Lock) : Code H Unit := do
  if !(← tryTake lk) then
    acquire lk

/-- `while (!cond) sleep(chan, lk);` -/
def awaitBody (img : Image) (T : Topic) : Program (SleepInstr H) Unit := do
  if !(← .perform .test) then
    .perform .arm
    (sleep img T.chan (some T.lk)).translate .code
    .perform .slept
    .perform .await

def taskBody (img : Image) (T : Topic) : Program (SleepInstr H) Empty := do
  match ← .perform .task with
  | .await consume => do
      (acquire T.lk).translate .code
      .perform .await
      if consume then
        .perform (.put false)
      (release T.lk).translate .code
  | .make => do
      (acquire T.lk).translate .code
      .perform (.put true)
      (wakeup T.chan).translate .code
      (release T.lk).translate .code
  | .spoil => do
      (acquire T.lk).translate .code
      .perform (.put false)
      (release T.lk).translate .code
  | .yield => (Process.yield img).translate .code
  .perform .more

def effect (img : Image) (T : Topic) {β : Type} :
    SleepInstr H β → Effect (SleepInstr H) H (Ctx H) (Sleepers H) β
  | .code (.act f) => .atomic fun h a => ((f h a.world).1, a.run (f h a.world).2)
  | .code (.choose _) => .choose
  | .code (.panic message) => .halt message
  | .code (.swtch old new regs) =>
      .switch old new (fun h a => a.run (transfer old new regs h a.world)) ()
  | .code (.acquire lk) => .call ((takeBody lk).translate .code)
  | .code (.release lk) => .atomic fun h a => ((), a.run (a.world.dropped h lk))
  | .code .myproc => .atomic fun h a => ((a.world.cpus h).proc, a.run (a.world.noted h))
  | .code .scheduling => .call (schedulingBody.translate .code)
  | .code .wfi => .call (pure ())
  | .code _ => .halt "not called by sleepers"
  | .task => .choose
  | .test => .atomic fun _ a => (a.cond, a)
  | .put cond => .atomic fun _ a => ((), { a with cond })
  | .arm => .atomic fun h a => ((), a.run (a.world.running h fun s => { s with phase := .armed }))
  | .await => .call (awaitBody img T)
  | .slept => .call (pure ())
  | .more => .call (taskBody img T)

def platform (img : Image) (T : Topic) : Platform (SleepInstr H) H (Ctx H) (Sleepers H) where
  effect := effect img T
  current a := a.world.cur
  fresh _ _ := none
  trap _ _ _ := False
  handler := pure ()

/-- Every hart comes to its scheduler, and the processes in `live` are runnable; like
`forkret` they first release their lock. -/
def start (live : Slot → Bool) (memory : Memory) (cond : Bool) :
    Config (SleepInstr H) H (Ctx H) (Sleepers H) where
  world :=
    { world := { bootWorld memory with
        kernel := { afterProcinit memory with
          proc := fun p =>
            { (afterProcinit memory).proc p with
              state := if live p then .runnable else .unused } } }
      cond }
  code _ := scheduler.translate .code
  saved c :=
    match c with
    | .proc p => (release (.proc p)).translate .code >>= fun _ => .perform .more
    | .cpu _ => (panic "never run").translate .code

/-! ## Views -/

def view (a : Sleepers H) : View H where
  owner lk := (a.world.lock lk).locked
  cur := a.world.cur
  on h := (a.world.cpus h).proc
  state p := (a.world.kernel.proc p).state
  chan p := (a.world.kernel.proc p).chan
  armed p := (a.world.kernel.shadow p).phase = .armed
  cond := a.cond

variable {img : Image} {T : Topic} {h : H} {a a' : Sleepers H} {p q me : Slot} {lk : Lock}

theorem view_taken : (a.run (a.world.taken h lk)).view = a.view.take h lk := by
  ext1
  case owner =>
    funext lk'
    by_cases heq : lk' = lk <;>
      simp [heq, view, View.take, run, World.taken, World.pushed, World.setLock, World.setCpu,
        World.setSie, World.setCsr]
  case on =>
    funext h'
    by_cases heq : h' = h <;>
      simp [heq, view, View.take, run, World.taken, World.pushed, World.setLock, World.setCpu,
        World.setSie, World.setCsr]
  all_goals rfl

theorem view_dropped : (a.run (a.world.dropped h lk)).view = a.view.drop lk := by
  ext1
  case owner =>
    funext lk'
    unfold World.dropped World.popped
    by_cases heq : lk' = lk <;> split <;>
      simp [heq, view, View.drop, run, World.setLock, World.setCpu, World.setSie, World.setCsr]
  case on =>
    funext h'
    unfold World.dropped World.popped
    by_cases heq : h' = h <;> split <;>
      simp [heq, view, View.drop, run, World.setLock, World.setCpu, World.setSie, World.setCsr]
  all_goals
    unfold World.dropped World.popped
    split <;> rfl

theorem view_cpu {f : Cpu → Cpu} (hf : ∀ c, (f c).proc = c.proc) :
    (a.run (a.world.setCpu h f)).view = a.view := by
  ext1
  case on =>
    funext h'
    by_cases heq : h' = h
    · subst heq
      simpa [view, run, World.setCpu] using hf _
    · simp [heq, view, run, World.setCpu]
  all_goals rfl

theorem view_noted : (a.run (a.world.noted h)).view = a.view := view_cpu fun _ => rfl

theorem view_setOn {proc : Option Slot} :
    (a.run (a.world.setCpu h fun c => { c with proc })).view = a.view.setOn h proc := by
  ext1
  case on =>
    funext h'
    by_cases heq : h' = h
    · subst heq
      simp [view, run, World.setCpu, View.setOn]
    · simp [heq, view, run, World.setCpu, View.setOn]
  all_goals rfl

omit [DecidableEq H] in
theorem view_setProc {f : Proc → Proc} :
    (a.run { a.world with kernel := a.world.kernel.setProc q f }).view =
      a.view.touch q (f (a.world.kernel.proc q)).state (f (a.world.kernel.proc q)).chan
        (a.view.armed q) := by
  ext1
  case state =>
    funext p
    by_cases heq : p = q
    · subst heq
      simp [view, run, Kernel.setProc, View.touch]
    · simp [heq, view, run, Kernel.setProc, View.touch]
  case chan =>
    funext p
    by_cases heq : p = q
    · subst heq
      simp [view, run, Kernel.setProc, View.touch]
    · simp [heq, view, run, Kernel.setProc, View.touch]
  case armed => exact (Function.update_eq_self ..).symm
  all_goals rfl

omit [DecidableEq H] in
theorem view_wake (hsleeps : a.view.SleepsOn T q) :
    (a.run { a.world with kernel := a.world.kernel.wake T.chan q }).view =
      a.view.touch q .runnable (a.view.chan q) False := by
  have hwake : a.world.kernel.wake T.chan q = (a.world.kernel.setProc q fun s =>
      { s with state := .runnable }).setShadow q fun s =>
        { s with phase := if s.phase = .armed then .woken else s.phase } := if_pos hsleeps
  rw [hwake]
  ext1
  case state =>
    funext p
    by_cases heq : p = q
    · subst heq
      simp [view, run, Kernel.setProc, Kernel.setShadow, View.touch]
    · simp [heq, view, run, Kernel.setProc, Kernel.setShadow, View.touch]
  case chan =>
    funext p
    by_cases heq : p = q
    · subst heq
      simp [view, run, Kernel.setProc, Kernel.setShadow, View.touch]
    · simp [heq, view, run, Kernel.setProc, Kernel.setShadow, View.touch]
  case armed =>
    funext p
    by_cases heq : p = q
    · subst heq
      by_cases harmed : a.world.kernel.phase p = .armed <;>
        simp [view, run, Kernel.setShadow, View.touch, harmed, Kernel.setProc]
    · simp [heq, view, run, Kernel.setShadow, View.touch, Kernel.setProc]
  all_goals rfl

omit [DecidableEq H] in
theorem wake_same (hsleeps : ¬ a.view.SleepsOn T q) :
    a.world.kernel.wake T.chan q = a.world.kernel := if_neg hsleeps

omit [DecidableEq H] in
theorem view_arm (hcur : a.view.cur h = .proc p) :
    (a.run (a.world.running h fun s => { s with phase := .armed })).view = a.view.arm p := by
  have hrunning : (a.world.running h fun s => { s with phase := .armed }) =
      { a.world with
        kernel := a.world.kernel.setShadow p fun s => { s with phase := .armed } } := by
    have hcur' : a.world.cur h = .proc p := hcur
    simp [World.running, hcur']
  rw [hrunning]
  ext1
  case armed =>
    funext q
    by_cases heq : q = p
    · subst heq
      simp [view, run, Kernel.setShadow, View.arm]
    · simp [heq, view, run, Kernel.setShadow, View.arm]
  all_goals rfl

theorem view_transfer {old new : Ctx H} {regs : Context} :
    (a.run (transfer old new regs h a.world)).view = a.view.switch h new := by
  cases old with
  | proc p =>
    ext1
    case state =>
      funext q
      by_cases heq : q = p
      · subst heq
        simp [view, run, transfer, Kernel.setProc, View.switch]
      · simp [heq, view, run, transfer, Kernel.setProc, View.switch]
    case chan =>
      funext q
      by_cases heq : q = p
      · subst heq
        simp [view, run, transfer, Kernel.setProc, View.switch]
      · simp [heq, view, run, transfer, Kernel.setProc, View.switch]
    all_goals rfl
  | cpu c =>
    ext1
    case on =>
      funext g
      by_cases heq : g = c
      · subst heq
        simp [view, run, transfer, World.setCpu, View.switch]
      · simp [heq, view, run, transfer, World.setCpu, View.switch]
    all_goals rfl

end Sleepers

end Xv6Kernel.Process
