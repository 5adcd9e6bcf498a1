import Xv6Kernel.Process.Frame

/-!
# The contracts

`On` describes the hart a program runs on: its context, the locks it holds, how
deep `push_off` is nested and what `SIE` goes back to at depth 0.  The `Logic` of
the kernel says what other harts may do meanwhile, what a switch hands over, and
what each function with a contract needs and gives.
-/

namespace Xv6Kernel.Process

open Xv6Kernel.Foundation Xv6Kernel.Mm

/-- The hart as its program sees it. -/
structure Local (H : Type) where
  ctx : Ctx H
  /-- The locks held, last acquired first. -/
  locks : List Lock
  /-- A lock that is taken while its `cpu` is not set. -/
  half : Option Lock := none
  /-- Calls of `push_off` beyond those of the locks held. -/
  depth : Nat := 0
  /-- `SIE` once `noff` is 0 again. -/
  sie : Bool
  /-- `mycpu()->proc`. -/
  proc : Option Slot

variable {H : Type}

def Local.held (l : Local H) (lk : Lock) : Prop := lk ∈ l.locks ∨ l.half = some lk

/-- Where the program runs and what it holds. -/
structure Holds (l : Local H) (h : H) (w : World H) : Prop where
  ctx : w.cur h = l.ctx
  held : ∀ lk, (w.lock lk).locked = some h ↔ l.held lk
  cpu : ∀ lk ∈ l.locks, (w.lock lk).cpu = some h
  nodup : l.locks.Nodup
  half : ∀ lk, l.half = some lk → lk ∉ l.locks ∧ (w.lock lk).cpu = none
  proc : (w.cpus h).proc = l.proc

structure On (l : Local H) (h : H) (w : World H) : Prop extends Holds l h w where
  noff : (w.cpus h).noff = l.locks.length + l.depth
  unmasked : l.locks.length + l.depth = 0 → (w.csr h).sstatus.sie = l.sie
  masked : l.locks.length + l.depth ≠ 0 →
    (w.csr h).sstatus.sie = false ∧ (w.cpus h).intena = l.sie

/-- What a hart on the stack `c` may do to the state of a slot `p`. -/
inductive StateMove (c : Ctx H) (p : Slot) (k : Kernel) : ProcState → ProcState → Prop where
  | still (s : ProcState) : StateMove c p k s s
  | alloc : StateMove c p k .unused .used
  | free : StateMove c p k .used .unused
  | create : StateMove c p k .used .runnable
  /-- Only a scheduler. -/
  | dispatch (h : H) (hc : c = .cpu h) : StateMove c p k .runnable .running
  /-- Only the process itself. -/
  | leave (s : ProcState) (hc : c = .proc p)
      (hs : s = .runnable ∨ s = .sleeping ∨ s = .zombie) : StateMove c p k .running s
  | wake : StateMove c p k .sleeping .runnable
  /-- Only the parent. -/
  | reap (r : Slot) (hc : c = .proc r) (hparent : k.parent p = some r) :
      StateMove c p k .zombie .unused

variable (S : Setting H)

/-! ## What others may do -/

structure Rely (h : H) (w w' : World H) : Prop where
  cur : w'.cur h = w.cur h
  cpus : w'.cpus h = w.cpus h
  csr : w'.csr h = w.csr h
  locked : ∀ lk, (w'.lock lk).locked = some h ↔ (w.lock lk).locked = some h
  lockCpu : ∀ lk, (w.lock lk).locked = some h → (w'.lock lk).cpu = (w.lock lk).cpu
  frame : Frame S True (w.cur h) (fun lk => (w.lock lk).locked = some h) w.kernel
    w'.kernel

/-- What is kept for a suspended context. -/
structure Keep (c : Ctx H) (w w' : World H) : Prop where
  own : OwnKept S True c w.kernel w'.kernel
  reborn : ∀ p, c = .proc p → ¬ (w.kernel.state p).Alive →
    (w'.kernel.state p).Alive → (w'.kernel.context p).ra = S.img.forkret
  forever : Forever w.kernel w'.kernel
  cpu : ∀ h, c = .cpu h → (w'.cpus h).proc = (w.cpus h).proc

theorem Keep.trans {S : Setting H} {c : Ctx H} {w w' w'' : World H}
    (h : Keep S c w w') (h' : Keep S c w' w'') : Keep S c w w'' where
  own := h.own.trans h'.own
  reborn p hc hdead halive := by
    subst hc
    by_cases hmid : (w'.kernel.state p).Alive
    · have hkept := h'.own hmid
      rw [hkept.context (.inl trivial)]
      exact h.reborn p rfl hdead hmid
    · exact h'.reborn p rfl hmid halive
  forever := h.forever.trans h'.forever
  cpu h₀ hc := (h'.cpu h₀ hc).trans (h.cpu h₀ hc)

/-- A hart comes to a context with the lock of one process and nothing else. -/
def Resume (c : Ctx H) (h : H) (w : World H) : Prop :=
  match c with
  | .proc p =>
      (∃ sie, On ⟨.proc p, [.proc p], none, 0, sie, some p⟩ h w) ∧
        w.kernel.state p = .running ∧ w.kernel.phase p ≠ .armed ∧
        NotMoved S.img p w.kernel
  | .cpu h₀ => ∃ p sie, On ⟨.cpu h₀, [.proc p], none, 0, sie, some p⟩ h w ∧
      w.kernel.state p ≠ .running

/-- What a trap does to the program it interrupts. -/
structure Preempt (h : H) (w : World H) (h' : H) (w' : World H) : Prop where
  ctx : w'.cur h' = w.cur h
  quiet : Quiet w' h'
  sie : (w'.csr h').sstatus.sie = true
  frame : Frame S False (w.cur h) (fun _ => False) w.kernel w'.kernel

/-- At a switch the hart holds the lock of the process it leaves or enters, no
other lock, and interrupts are off. -/
structure Handoff (old new : Ctx H) (h : H) (w : World H) (p : Slot) : Prop where
  switch : old = .proc p ∧ new = .cpu h ∨ old = .cpu h ∧ new = .proc p
  locked : ∀ lk, (w.lock lk).locked = some h ↔ lk = .proc p
  cpu : (w.lock (.proc p)).cpu = some h
  noff : (w.cpus h).noff = 1
  sie : (w.csr h).sstatus.sie = false

/-! ## Answers and the history -/

/-- The event has come to a history that was `log`. -/
def Since (log : List Event) (event : Event) (k : Kernel) : Prop :=
  ∃ later earlier, k.log = later ++ event :: earlier ∧ log <:+ earlier

/-- `wait_process` of the process number `who` answers what the history has noted since it
was `log`; `status` tells whether the pointer is not null. -/
inductive Reports (log : List Event) (who : Nat) (status : Bool) (k : Kernel) :
    CInt × Option CInt → Prop where
  | child {child : Nat} {pid : CInt} {stored : Option CInt}
      (since : Since log (.waited who child pid stored) k) (hstored : stored.isSome = status) :
      Reports log who status k (pid, stored)
  | childless (since : Since log (.childless who []) k) : Reports log who status k (-1, none)

section Since

variable {log log' : List Event} {event : Event} {k k' : Kernel} {who : Nat} {status : Bool}
  {answer : CInt × Option CInt}

theorem Since.record (hlog : log <:+ k.log) : Since log event (k.record event) :=
  ⟨[], k.log, rfl, hlog⟩

theorem Since.mono (since : Since log event k) (hlog : k.log <:+ k'.log) :
    Since log event k' := by
  obtain ⟨later, earlier, heq, hearlier⟩ := since
  obtain ⟨more, hmore⟩ := hlog
  exact ⟨more ++ later, earlier, by rw [← hmore, heq, List.append_assoc], hearlier⟩

theorem Since.before (since : Since log event k) (hlog : log' <:+ log) : Since log' event k := by
  obtain ⟨later, earlier, heq, hearlier⟩ := since
  exact ⟨later, earlier, heq, hlog.trans hearlier⟩

theorem Since.suffix (since : Since log event k) : log <:+ k.log := by
  obtain ⟨later, earlier, heq, hearlier⟩ := since
  exact heq ▸ hearlier.trans ((List.suffix_cons ..).trans (List.suffix_append ..))

theorem Reports.suffix (reports : Reports log who status k answer) : log <:+ k.log := by
  cases reports with
  | child since hstored => exact since.suffix
  | childless since => exact since.suffix

theorem Reports.mono (reports : Reports log who status k answer) (hlog : k.log <:+ k'.log) :
    Reports log who status k' answer := by
  cases reports with
  | child since hstored => exact .child (since.mono hlog) hstored
  | childless since => exact .childless (since.mono hlog)

theorem Reports.before (reports : Reports log who status k answer) (hlog : log' <:+ log) :
    Reports log' who status k answer := by
  cases reports with
  | child since hstored => exact .child (since.before hlog) hstored
  | childless since => exact .childless (since.before hlog)

end Since

/-! ## Contracts of the functions -/

/-- `lk` may be released with the data as it is. -/
structure Releasable (l : Local H) (lk : Lock) (k : Kernel) : Prop where
  running : ∀ p, l.ctx = .proc p → lk = .proc p → k.state p = .running
  calm : lk = .wait → Calm k.state k.parent k.phase
  armed : ∀ p, l.ctx = .proc p → k.phase p = .armed →
    l.held .wait ∧ lk ≠ .wait ∨ l.held (.proc p) ∧ lk ≠ .proc p

/-- What a hart finds when it has taken `lk`. -/
structure Acquired (l : Local H) (lk : Lock) (k : Kernel) : Prop where
  calm : lk = .wait → Calm k.state k.parent k.phase
  running : ∀ p, l.ctx = .proc p → lk = .proc p → k.state p = .running

/-- `SIE` of a process that has not turned interrupts off itself. -/
def SieOk (p : Slot) (sie : Bool) (k : Kernel) : Prop :=
  (k.shadow p).calledOff = false →
    sie = ((k.shadow p).startedOn || (k.shadow p).calledOn)

/-- A process outside the functions of the kernel. -/
structure AtHome (p : Slot) (sie : Bool) (k : Kernel) : Prop where
  alive : (k.state p).Alive
  phase : k.phase p = .out
  window : (k.shadow p).window = false
  sie : SieOk p sie k

/-- The hart of a process that holds `locks`. -/
def Local.ofProc (p : Slot) (locks : List Lock) (sie : Bool) : Local H :=
  ⟨.proc p, locks, none, 0, sie, some p⟩

/-- What an instruction with a body needs. -/
def Pre {β : Type} (i : Instr H β) (l : Local H) (w : World H) : Prop :=
  match i with
  | .acquire lk => l.half = none ∧ l.depth = 0 ∧ lk ∉ l.locks
  | .release lk =>
      l.half = none ∧ l.depth = 0 ∧ lk ∈ l.locks ∧ l.proc = l.ctx.slot ∧
        Releasable l lk w.kernel
  | .spin lk => l.half = none ∧ l.depth ≠ 0 ∧ lk ∉ l.locks
  | .myproc => l.half = none
  | .waitLoop p _ => ∃ q sie, p = some q ∧ l = .ofProc q [.wait] sie ∧
      (w.kernel.state q).Alive ∧ w.kernel.phase q = .scanning ∧
      (w.kernel.shadow q).window = false ∧
      Calm w.kernel.state w.kernel.parent w.kernel.phase
  | .scheduling => ∃ h sie, l = ⟨.cpu h, [], none, 0, sie, none⟩
  | .initLoop => ∃ p sie, l = .ofProc p [] sie ∧ AtHome p sie w.kernel
  | .client held => ∃ p sie, l = .ofProc p held sie ∧ AtHome p sie w.kernel ∧
      ∀ lk ∈ held, Acquired l lk w.kernel
  | .enter fn => ∃ p sie, l = .ofProc p [] sie ∧ AtHome p sie w.kernel ∧
      (S.quiet = true → fn = (w.kernel.shadow p).entry)
  | .atEntry => ∃ p sie, l = .ofProc p [] sie ∧ AtHome p sie w.kernel
  | .wfi => ∃ h, l = ⟨.cpu h, [], none, 0, false, none⟩
  | .diverge => True
  | .act _ | .choose _ | .panic _ | .swtch .. => False

/-- What it gives. -/
def Post {β : Type} (i : Instr H β) (l : Local H) (w : World H) (answer : β) (h' : H)
    (w' : World H) : Prop :=
  match i, answer with
  | .acquire lk, _ =>
      On { l with locks := lk :: l.locks } h' w' ∧
        Frame S False l.ctx l.held w.kernel w'.kernel ∧
        Acquired l lk w'.kernel
  | .release lk, _ =>
      On { l with locks := l.locks.erase lk } h' w' ∧
        Frame S False l.ctx (fun lk' => lk' ∈ l.locks.erase lk) w.kernel w'.kernel
  | .spin lk, _ =>
      On { l with half := some lk } h' w' ∧
        Frame S False l.ctx l.held w.kernel w'.kernel ∧
        Acquired l lk w'.kernel
  | .myproc, answer =>
      On l h' w' ∧ Frame S False l.ctx l.held w.kernel w'.kernel ∧ answer = l.proc
  | .waitLoop p status, answer => ∃ q sie, p = some q ∧ l = .ofProc q [.wait] sie ∧
      On (.ofProc q [] sie) h' w' ∧ (w'.kernel.state q).Alive ∧
      w'.kernel.phase q = .out ∧
      (∃ phase, w'.kernel.shadow q = { w.kernel.shadow q with phase }) ∧
      Reports w.kernel.log (w.kernel.serial q) status w'.kernel answer
  | .atEntry, _ | .wfi, _ => On l h' w' ∧ Frame S False l.ctx l.held w.kernel w'.kernel
  | .enter _, _ | .diverge, _ => False
  | .scheduling, answer | .initLoop, answer | .client _, answer => answer.elim
  | .act _, _ | .choose _, _ | .panic _, _ | .swtch .., _ => False

/-- The messages of the panics that tell of a broken lock discipline. -/
def lockPanics : List String :=
  ["sched p->lock", "sched locks", "sched RUNNING", "sched interruptible",
    "acquire", "release", "pop_off - interruptible", "pop_off", "zombie exit"]

variable [DecidableEq H]

/-- The logic of the kernel. -/
def logic : Logic (platform S.img S.quiet : Platform (Instr H) H (Ctx H) (World H)) where
  Inv := Inv S.img
  Rely := Rely S
  Keep := Keep S
  Resume := Resume S
  Preempt := Preempt S
  Handoff old new h w := ∃ p, Handoff old new h w p
  pre i h w := ∃ l, On l h w ∧ Pre S i l w
  post i h w answer h' w' := ∀ l, On l h w → Pre S i l w → Post S i l w answer h' w'
  MayHalt message := message ∉ lockPanics
  Allowed h w w' := ∀ p,
    StateMove (w.cur h) p w.kernel (w.kernel.state p) (w'.kernel.state p)
  keep_trans := Keep.trans

end Xv6Kernel.Process
