import Xv6Kernel.Foundation.Acyclic
import Xv6Kernel.Process.Undisturbed

/-!
# The order of the locks

A lock comes after another if some execution of one of the kernel's functions takes it
while it holds the other.  The functions are started in any world; between their
instructions other harts do what they like with what the hart has not locked.
-/

namespace Xv6Kernel.Process

open Xv6Kernel.Foundation Xv6Kernel.Mm

/-- A function under way on a hart. -/
structure Spot (H : Type) where
  hart : H
  world : World H
  /-- The locks whose `acquire` has returned and whose `release` has not been called. -/
  held : List Lock
  code : Code H Unit

/-- A lock under which processes sleep, and are woken. -/
def Lock.guards : Lock → Prop
  | .wait | .ticks | .user _ => True
  | .pid | .print | .kmem | .proc _ => False

section Executions

variable {H : Type} [DecidableEq H]

/-- The functions, with the locks their callers hold; only `creators` are the current
process of a hart that calls `create_process`. -/
inductive Starts (img : Image) (creators : Slot → Prop) : Spot H → Prop
  | createProcess {h : H} {w : World H} (entrypoint : Word)
      (hcreator : ∀ p, (w.cpus h).proc = some p → creators p) :
      Starts img creators ⟨h, w, [], createProcess img entrypoint >>= fun _ => pure ()⟩
  | exitProcess (h : H) (w : World H) (status : CInt) :
      Starts img creators ⟨h, w, [], exitProcess img status >>= fun never => never.elim⟩
  | waitProcess (h : H) (w : World H) (status : Bool) :
      Starts img creators ⟨h, w, [], waitProcess status >>= fun _ => pure ()⟩
  | sleep {h : H} {w : World H} (chan : Option Chan) {lk : Lock}
      (hlk : lk.guards ∨ (w.cpus h).proc.map .proc = some lk) :
      Starts img creators ⟨h, w, [lk], sleep img chan (some lk)⟩
  | wakeup (h : H) (w : World H) (chan : Option Chan) {held : List Lock}
      (hheld : ∀ lk ∈ held, lk.guards) : Starts img creators ⟨h, w, held, wakeup chan⟩
  | yield (h : H) (w : World H) : Starts img creators ⟨h, w, [], yield img⟩
  | allocPage (h : H) (w : World H) :
      Starts img creators ⟨h, w, [], liftMem allocPage >>= fun _ => pure ()⟩
  | freePage (h : H) (w : World H) (page : Word) :
      Starts img creators ⟨h, w, [], liftMem (freePage img page)⟩
  | printf (h : H) (w : World H) (text : String) :
      Starts img creators ⟨h, w, [], printf text⟩
  | timerInterrupt (h : H) (w : World H) : Starts img creators ⟨h, w, [], timerInterrupt⟩

inductive Executes (img : Image) : Spot H → Spot H → Prop
  | act {β : Type} {h : H} {w : World H} {held : List Lock} {f : H → World H → β × World H}
      {next : β → Code H Unit} :
      Executes img ⟨h, w, held, .step (.act f) next⟩ ⟨h, (f h w).2, held, next (f h w).1⟩
  | choose {β : Type} {h : H} {w : World H} {held : List Lock} {next : β → Code H Unit}
      (answer : β) :
      Executes img ⟨h, w, held, .step (.choose β) next⟩ ⟨h, w, held, next answer⟩
  | acquire {h : H} {w : World H} {held : List Lock} {lk : Lock} {next : Unit → Code H Unit}
      (hfree : w.lock lk = ⟨none, none⟩) :
      Executes img ⟨h, w, held, .step (.acquire lk) next⟩
        ⟨h, w.taken h lk, lk :: held, next ()⟩
  | release {h : H} {w : World H} {held : List Lock} {lk : Lock} {next : Unit → Code H Unit}
      (hheld : lk ∈ held) :
      Executes img ⟨h, w, held, .step (.release lk) next⟩
        ⟨h, w.dropped h lk, held.erase lk, next ()⟩
  | myproc {h : H} {w : World H} {held : List Lock} {next : Option Slot → Code H Unit} :
      Executes img ⟨h, w, held, .step .myproc next⟩
        ⟨h, w.noted h, held, next (w.cpus h).proc⟩
  | waitLoop {h : H} {w : World H} {held : List Lock} {p : Option Slot} {status : Bool}
      {next : CInt × Option CInt → Code H Unit} :
      Executes img ⟨h, w, held, .step (.waitLoop p status) next⟩
        ⟨h, w, held, waitBody img p status >>= next⟩
  /-- The scheduler of any hart resumes the process, with the lock it has left held. -/
  | swtch {h h' : H} {w w' : World H} {held : List Lock} {old new : Ctx H} {regs : Context}
      {next : Unit → Code H Unit} (hproc : (w'.cpus h').proc = (w.cpus h).proc) :
      Executes img ⟨h, w, held, .step (.swtch old new regs) next⟩ ⟨h', w', held, next ()⟩
  | others {h : H} {w w' : World H} {held : List Lock} {code : Code H Unit}
      (hcpu : w'.cpus h = w.cpus h) (hcsr : w'.csr h = w.csr h)
      (hheld : ∀ lk ∈ held, w'.lock lk = w.lock lk) :
      Executes img ⟨h, w, held, code⟩ ⟨h, w', held, code⟩
  /-- A timer interrupt, after which the process may be on another hart. -/
  | interrupted {h h' : H} {w w' : World H} {code : Code H Unit}
      (hon : (w.csr h).sstatus.sie = true) (hproc : (w'.cpus h').proc = (w.cpus h).proc) :
      Executes img ⟨h, w, [], code⟩ ⟨h', w', [], code⟩

def Comes (img : Image) (creators : Slot → Prop) (s : Spot H) : Prop :=
  ∃ start, Starts img creators start ∧ Relation.ReflTransGen (Executes img) start s

/-- The hart is at a call of `acquire`, or in its loop. -/
def Spot.Wants (s : Spot H) (lk : Lock) : Prop :=
  ∃ next, s.code = .step (.acquire lk) next

variable (H) in
/-- `lk'` is acquired while `lk` is held. -/
def LockOrder (img : Image) (creators : Slot → Prop) (lk lk' : Lock) : Prop :=
  ∃ s : Spot H, Comes img creators s ∧ lk ∈ s.held ∧ s.Wants lk'

variable (H) in
/-- Some harts, each in an execution of its own, spin on a lock held by the next. -/
def Deadlock (img : Image) (creators : Slot → Prop) : Prop :=
  ∃ (harts : Finset H) (spot : H → Spot H) (wants : H → Lock) (next : H → H),
    harts.Nonempty ∧ ∀ h ∈ harts, (spot h).hart = h ∧ Comes img creators (spot h) ∧
      (spot h).Wants (wants h) ∧ next h ∈ harts ∧ wants h ∈ (spot (next h)).held

omit [DecidableEq H] in
variable {img : Image} {creators : Slot → Prop} in
theorem Deadlock.absurd [DecidableEq H] (acyclic : Acyclic (LockOrder H img creators)) :
    ¬ Deadlock H img creators := by
  rintro ⟨harts, spot, wants, next, hne, hring⟩
  refine acyclic.no_ring hne wants next fun h hh => ?_
  obtain ⟨-, -, -, hnext, hheld⟩ := hring h hh
  obtain ⟨-, comes, hwants, -, -⟩ := hring (next h) hnext
  exact ⟨hnext, spot (next h), comes, hheld, hwants⟩

end Executions

/-! ## Ranks -/

/-- The locks of sleepers come first, then those of the processes. -/
def Lock.rank : Lock → ℕ
  | .wait | .ticks | .user _ => 0
  | .proc _ => 1
  | .pid | .print | .kmem => 2

theorem Lock.guards.rank_eq {lk : Lock} (h : lk.guards) : lk.rank = 0 := by
  cases lk <;> first | rfl | exact h.elim

/-- All locks held are of lower rank. -/
def Under (n : ℕ) (held : List Lock) : Prop := ∀ lk ∈ held, lk.rank < n

theorem Under.nil (n : ℕ) : Under n [] := nofun

theorem Under.cons {n : ℕ} {lk : Lock} {held : List Lock} (hlk : lk.rank < n)
    (h : Under n held) : Under n (lk :: held) := by
  intro lk' hlk'
  rcases List.mem_cons.mp hlk' with rfl | hmem
  · exact hlk
  · exact h lk' hmem

theorem Under.mono {m n : ℕ} {held : List Lock} (h : Under m held) (hmn : m ≤ n) :
    Under n held :=
  fun lk hlk => (h lk hlk).trans_le hmn

theorem Under.guards {held : List Lock} (h : ∀ lk ∈ held, lk.guards) : Under 1 held := by
  intro lk hlk
  rw [(h lk hlk).rank_eq]
  exact Nat.zero_lt_one

theorem Lock.guards.under {lk : Lock} (h : lk.guards) : Under 1 [lk] :=
  .guards (List.forall_mem_singleton.mpr h)

/-! ## Programs that keep the order -/

section Orderly

variable {H : Type} [DecidableEq H] {img : Image} {α β : Type} {me : Option Slot}
  {held : List Lock}

/-- What an instruction of the process `me` needs of the locks held, and what it does
to them.  Reads may answer anything. -/
def Takes (me : Option Slot) {β : Type} :
    Instr H β → (β → List Lock → Prop) → List Lock → Prop
  | .act f, K, held =>
      (∀ h w, ((f h w).2.cpus h).proc = (w.cpus h).proc) ∧ ∀ answer, K answer held
  | .choose _, K, held => ∀ answer, K answer held
  | .swtch _ _ _, K, held => K () held
  | .acquire lk, K, held => Under lk.rank held ∧ K () (lk :: held)
  | .release lk, K, held => K () (held.erase lk)
  | .myproc, K, held => K me held
  | .waitLoop p _, K, held => p = me ∧ held = [.wait] ∧ ∀ answer, K answer []
  | .panic _, _, _ => True
  | .diverge, _, _ => True
  | _, _, _ => False

/-- The program takes locks upwards only, and ends in `Q`. -/
def Orderly (me : Option Slot) : Code H α → (α → List Lock → Prop) → List Lock → Prop
  | .done value, Q, held => Q value held
  | .step i next, Q, held => Takes me i (fun answer => Orderly me (next answer) Q) held

omit [DecidableEq H] in
theorem Takes.mono {i : Instr H β} {K K' : β → List Lock → Prop}
    (hK : ∀ answer held, K answer held → K' answer held) (takes : Takes me i K held) :
    Takes me i K' held := by
  cases i with
  | act f => exact ⟨takes.1, fun answer => hK _ _ (takes.2 answer)⟩
  | choose => exact fun answer => hK _ _ (takes answer)
  | swtch old new regs => exact hK _ _ takes
  | acquire lk => exact ⟨takes.1, hK _ _ takes.2⟩
  | release lk => exact hK _ _ takes
  | myproc => exact hK _ _ takes
  | waitLoop p status => exact ⟨takes.1, takes.2.1, fun answer => hK _ _ (takes.2.2 answer)⟩
  | panic message => trivial
  | diverge => trivial
  | _ => exact takes.elim

omit [DecidableEq H] in
theorem Orderly.mono {program : Code H α} {Q Q' : α → List Lock → Prop}
    (hQ : ∀ value held, Q value held → Q' value held) (h : Orderly me program Q held) :
    Orderly me program Q' held := by
  induction program generalizing held with
  | done value => exact hQ value held h
  | step i next ih => exact h.mono fun answer _ hnext => ih answer hnext

omit [DecidableEq H] in
theorem orderly_bind {program : Code H α} {rest : α → Code H β} {Q : β → List Lock → Prop} :
    Orderly me (program >>= rest) Q held ↔
      Orderly me program (fun value => Orderly me (rest value) Q) held := by
  induction program generalizing held with
  | done value => rfl
  | step i next ih =>
    have hnext : (fun answer => Orderly me (next answer >>= rest) Q) =
        fun answer => Orderly me (next answer) fun value => Orderly me (rest value) Q := by
      funext answer held'
      exact propext (ih answer)
    simp only [Program.step_bind, Orderly, hnext]

/-- The program ends with the locks it began with. -/
def Restores (me : Option Slot) (held : List Lock) (program : Code H α) : Prop :=
  Orderly me program (fun _ held' => held' = held) held

variable {program : Code H α} {rest : α → Code H β} {Q : β → List Lock → Prop} {lk : Lock}

omit [DecidableEq H]

theorem Restores.done (value : α) : Restores me held (.done value : Code H α) :=
  (rfl : held = held)

theorem Restores.followed (h : Restores me held program)
    (hrest : ∀ value, Orderly me (rest value) Q held) : Orderly me (program >>= rest) Q held := by
  refine orderly_bind.mpr (Orderly.mono (fun value held' hheld => ?_) h)
  subst hheld
  exact hrest value

theorem restores_act {f : H → World H → α × World H}
    (hproc : ∀ h w, ((f h w).2.cpus h).proc = (w.cpus h).proc) : Restores me held (act f) :=
  ⟨hproc, fun _ => rfl⟩

theorem restores_read (f : Kernel → α) : Restores me held (read f : Code H α) :=
  restores_act fun _ _ => rfl

theorem restores_write (f : Kernel → Kernel) : Restores me held (write f : Code H Unit) :=
  restores_act fun _ _ => rfl

theorem restores_deref (pointer : Option α) :
    Restores me held (deref pointer : Code H α) := by
  cases pointer with
  | none => exact trivial
  | some target => exact .done target

theorem restores_forEach {ι : Type} {items : List ι} {body : ι → Code H Unit}
    (hbody : ∀ item, Restores me held (body item)) :
    Restores me held (Program.forEach items body) := by
  induction items with
  | nil => exact .done ()
  | cons item items ih => exact (hbody item).followed fun _ => ih

theorem orderly_acquire {rest : Unit → Code H β} (h : Under lk.rank held)
    (hrest : Orderly me (rest ()) Q (lk :: held)) :
    Orderly me (acquire lk >>= rest) Q held :=
  ⟨h, hrest⟩

theorem orderly_release {rest : Unit → Code H β}
    (hrest : Orderly me (rest ()) Q (held.erase lk)) :
    Orderly me (release lk >>= rest) Q held :=
  hrest

theorem orderly_locked {rest : Unit → Code H β} (h : Under lk.rank held)
    (hbody : Restores me (lk :: held) program) (hrest : Orderly me (rest ()) Q held) :
    Orderly me (acquire lk >>= fun _ => program >>= fun _ => release lk >>= rest) Q held := by
  refine orderly_acquire h (hbody.followed fun _ => orderly_release ?_)
  rwa [List.erase_cons_head]

theorem orderly_ite {p : Prop} [Decidable p] {program' : Code H β}
    {program : Code H β} (h : p → Orderly me program Q held)
    (h' : ¬ p → Orderly me program' Q held) :
    Orderly me (if p then program else program') Q held := by
  by_cases hp : p
  · rw [if_pos hp]
    exact h hp
  · rw [if_neg hp]
    exact h' hp

/-! ## The leaves -/

theorem restores_printf (h : Under 2 held) (text : String) :
    Restores me held (printf text : Code H Unit) := by
  refine (restores_act fun _ _ => rfl).followed fun _ =>
    orderly_acquire h ((restores_forEach fun c => restores_write _).followed fun _ => ?_)
  exact List.erase_cons_head ..

theorem restores_liftMem (h : Under 2 held) (program : MemM α) :
    Restores me held (liftMem program : Code H α) := by
  induction program with
  | done value => exact .done value
  | step instruction next ih =>
    cases instruction with
    | touch f => exact (restores_act fun _ _ => rfl).followed ih
    | critical f =>
      refine orderly_acquire h ((restores_act fun _ _ => rfl).followed fun answer =>
        orderly_release ?_)
      rw [List.erase_cons_head]
      exact ih answer
    | panic message => exact trivial
    | diverge => exact trivial

theorem restores_freeProcess (h : Under 2 held) (p : Slot) (reaper : Option Slot) :
    Restores me held (freeProcess img p reaper : Code H Unit) := by
  have hlast : Restores me held (do
      writeProc p fun s => { s with trapframe := 0 }
      let pagetable ← readProc p (·.pagetable)
      if pagetable ≠ 0 then
        liftMem (procFreepagetable img pagetable (← readProc p (·.sz)))
      write (Kernel.cleared p reaper) : Code H Unit) := by
    refine (restores_write _).followed fun _ => (restores_read _).followed fun pagetable => ?_
    refine orderly_ite (fun _ => ?_) fun _ => restores_write _
    exact (restores_read _).followed fun _ =>
      (restores_liftMem h _).followed fun _ => restores_write _
  refine (restores_read _).followed fun trapframe => orderly_ite (fun _ => ?_) fun _ => hlast
  exact (restores_liftMem h _).followed fun _ => hlast

theorem restores_allocpid (h : Under 2 held) (p : Slot) :
    Restores me held (allocpid p : Code H CInt) := by
  refine orderly_acquire h ((restores_read _).followed fun pid =>
    (restores_write _).followed fun _ => ?_)
  exact List.erase_cons_head ..

end Orderly

section Functions

variable {H : Type} [DecidableEq H] {img : Image} {α β : Type} {me : Option Slot}
  {held : List Lock} {lk : Lock}

omit [DecidableEq H] in
theorem orderly_myproc {rest : Option Slot → Code H β} {Q : β → List Lock → Prop}
    (hrest : Orderly me (rest me) Q held) : Orderly me (myproc >>= rest) Q held :=
  hrest

theorem restores_holding (lk : Lock) : Restores me held (holding lk : Code H Bool) := by
  refine (restores_act fun _ _ => rfl).followed fun set => orderly_ite (fun _ => ?_) fun _ => rfl
  exact (restores_act fun _ _ => rfl).followed fun _ =>
    (restores_act fun _ _ => rfl).followed fun _ => rfl

/-- The lock of the process is held again when it is resumed. -/
theorem restores_sched : Restores me held (sched img : Code H Unit) := by
  have hcpu : ∀ {f : Cpu → Cpu}, (∀ c, (f c).proc = c.proc) →
      Restores me held (writeCpu f : Code H Unit) := by
    intro f hf
    refine restores_act fun h w => ?_
    simp only [World.setCpu, Function.update_self]
    exact hf _
  refine orderly_myproc ((restores_deref me).followed fun p =>
    (restores_holding _).followed fun mine => orderly_ite (fun _ => trivial) fun _ => ?_)
  refine (restores_act fun _ _ => rfl).followed fun noff =>
    orderly_ite (fun _ => trivial) fun _ => ?_
  refine (restores_read _).followed fun state => orderly_ite (fun _ => trivial) fun _ => ?_
  refine (restores_act fun _ _ => rfl).followed fun sie =>
    orderly_ite (fun _ => trivial) fun _ => ?_
  refine (restores_act fun _ _ => rfl).followed fun intena => Restores.followed ?_ fun _ =>
    hcpu fun _ => rfl
  exact (restores_act fun _ _ => rfl).followed fun c => fun regs => rfl

theorem restores_yield : Restores me [] (yield img : Code H Unit) := by
  refine orderly_myproc ((restores_deref me).followed fun p => ?_)
  refine orderly_acquire (.nil _) ((restores_write _).followed fun _ =>
    restores_sched.followed fun _ => ?_)
  exact List.erase_cons_head ..

omit [DecidableEq H] in
theorem restores_wakeup (h : Under 1 held) (chan : Option Chan) :
    Restores me held (wakeup chan : Code H Unit) := by
  refine restores_forEach fun p => orderly_myproc (orderly_ite (fun _ => ?_) fun _ => rfl)
  refine orderly_acquire h ((restores_write _).followed fun _ => ?_)
  exact List.erase_cons_head ..

omit [DecidableEq H] in
theorem restores_timerInterrupt : Restores me [] (timerInterrupt : Code H Unit) := by
  have hticks : Lock.ticks.guards := trivial
  refine (restores_write _).followed fun _ =>
    orderly_locked (.nil _) (restores_wakeup hticks.under _) ?_
  exact (restores_read _).followed fun ticks => restores_printf (.nil 2) _

/-- The sleeper takes its own lock under `lk`, and `lk` again under no other. -/
theorem restores_sleep (hlk : lk.guards ∨ me.map .proc = some lk) (chan : Option Chan) :
    Restores me [lk] (sleep img chan (some lk) : Code H Unit) := by
  refine orderly_myproc ?_
  cases me with
  | none => exact trivial
  | some p =>
    by_cases hown : lk = .proc p
    · subst hown
      simp only [ne_eq, not_true_eq_false, if_false]
      exact (restores_write _).followed fun _ => restores_sched.followed fun _ =>
        (restores_write _).followed fun _ => rfl
    · have hguards : lk.guards := hlk.resolve_right fun h => hown (Option.some.inj h).symm
      have hleft : [Lock.proc p, lk].erase lk = [Lock.proc p] := by
        rw [List.erase_cons_tail (by simpa using Ne.symm hown), List.erase_cons_head]
      simp only [ne_eq, hown, not_false_eq_true, if_true]
      refine orderly_acquire hguards.under (orderly_release ?_)
      rw [hleft]
      refine (restores_write _).followed fun _ => restores_sched.followed fun _ =>
        (restores_write _).followed fun _ => orderly_release ?_
      rw [List.erase_cons_head]
      exact orderly_acquire (.nil _) rfl

/-! ## The creation of a process -/

/-- The locks held with an answer of `alloc_process`. -/
def Allocates (found : Option Slot) (held : List Lock) : Prop :=
  held = (found.map Lock.proc).toList

omit [DecidableEq H] in
theorem orderly_allocScan (ps : List Slot) :
    Orderly me (allocScan ps : Code H (Option Slot)) Allocates [] := by
  induction ps with
  | nil => rfl
  | cons p rest ih =>
    refine orderly_acquire (.nil _) ((restores_read _).followed fun state =>
      orderly_ite (fun _ => rfl) fun _ => orderly_release ?_)
    rwa [List.erase_cons_head]

omit [DecidableEq H] in
theorem orderly_allocFound (p : Slot) :
    Orderly me (allocFound img p : Code H (Option Slot)) Allocates [.proc p] := by
  have hinner : Under 2 [Lock.proc p] := .cons (Nat.lt_succ_self 1) (.nil 2)
  have hfails : Orderly me (freeProcess img p none >>= fun _ => release (.proc p) >>= fun _ =>
      pure none : Code H (Option Slot)) Allocates [.proc p] := by
    refine (restores_freeProcess hinner p none).followed fun _ => orderly_release ?_
    rw [List.erase_cons_head]
    rfl
  refine (restores_allocpid hinner p).followed fun pid => (restores_write _).followed fun _ =>
    (restores_printf hinner _).followed fun _ => (restores_liftMem hinner _).followed
      fun trapframe => (restores_write _).followed fun _ => orderly_ite (fun _ => hfails) fun _ => ?_
  refine (restores_liftMem hinner _).followed fun pagetable =>
    (restores_write _).followed fun _ => orderly_ite (fun _ => hfails) fun _ => ?_
  exact (restores_write _).followed fun _ => rfl

omit [DecidableEq H] in
theorem orderly_allocProcess :
    Orderly me (allocProcess img : Code H (Option Slot)) Allocates [] := by
  refine orderly_bind.mpr ((orderly_allocScan slots).mono ?_)
  rintro (_ | p) held rfl
  · exact rfl
  · exact orderly_allocFound p

omit [DecidableEq H] in
/-- With no current process `create_process` does not come to `wait_lock`. -/
theorem orderly_createProcess (entrypoint : Word) :
    Restores none [] (createProcess img entrypoint : Code H CInt) := by
  refine orderly_bind.mpr (orderly_allocProcess.mono ?_)
  rintro (_ | p) held rfl
  · exact trivial
  · refine orderly_myproc (orderly_ite (fun h => nomatch h) fun _ => ?_)
    refine (restores_read _).followed fun _ => (restores_write _).followed fun _ =>
      orderly_release ?_
    exact (restores_act fun _ _ => rfl).mono fun _ _ h => h.trans (List.erase_cons_head ..)

/-! ## Exit and wait -/

theorem guards_wait : Lock.wait.guards := trivial

omit [DecidableEq H] in
theorem restores_reparent (p : Option Slot) :
    Restores me [.wait] (reparent p : Code H Unit) := by
  refine restores_forEach fun pp => (restores_read _).followed fun parent =>
    orderly_ite (fun _ => ?_) fun _ => rfl
  refine (restores_write _).followed fun _ => (restores_read _).followed fun state =>
    orderly_ite (fun _ => ?_) fun _ => rfl
  refine (restores_read _).followed fun initproc => orderly_ite (fun _ => ?_) fun _ => rfl
  exact restores_wakeup guards_wait.under _

theorem orderly_exitProcess (status : CInt) :
    Orderly me (exitProcess img status : Code H Empty) (fun _ _ => True) [] := by
  refine orderly_myproc ((restores_read _).followed fun initproc =>
    orderly_ite (fun _ => trivial) fun _ => orderly_bind.mpr ?_)
  refine (restores_write _).followed fun _ => orderly_acquire (.nil _)
    ((restores_reparent _).followed fun _ => (restores_deref _).followed fun p =>
      (restores_read _).followed fun parent => ?_)
  have hlast : Orderly me (do
      acquire (.proc p)
      writeProc p fun s => { s with xstate := status, state := .zombie }
      release .wait : Code H Unit)
      (fun _ => Orderly me (sched img >>= fun _ => panic "zombie exit" : Code H Empty)
        fun _ _ => True) [.wait] := by
    refine orderly_acquire guards_wait.under ((restores_write _).followed fun _ => ?_)
    have hend : Orderly me (panic "zombie exit" : Code H Empty) (fun _ _ => True)
        ([Lock.proc p, .wait].erase .wait) := trivial
    exact restores_sched.followed fun _ => hend
  exact orderly_ite (fun _ => (restores_wakeup guards_wait.under _).followed fun _ => hlast)
    fun _ => hlast

omit [DecidableEq H] in
theorem orderly_waitScan (p : Option Slot) (status : Bool) (ps : List Slot) (havekids : Bool) :
    Orderly me (waitScan img p status ps havekids : Code H (Sum (CInt × Option CInt) Bool))
      (fun result held => held = if result.isLeft then [] else [.wait]) [.wait] := by
  induction ps generalizing havekids with
  | nil => rfl
  | cons np rest ih =>
    have hinner : Under 2 [Lock.proc np, .wait] :=
      .cons (Nat.lt_succ_self 1) (guards_wait.under.mono (Nat.le_succ 1))
    refine (restores_read _).followed fun parent => orderly_ite (fun _ => ?_) fun _ => ih havekids
    refine orderly_acquire guards_wait.under ((restores_read _).followed fun state =>
      orderly_ite (fun _ => ?_) fun _ => orderly_release ?_)
    · refine (restores_read _).followed fun pid => (restores_read _).followed fun xstate =>
        (restores_read _).followed fun child => (restores_freeProcess hinner np p).followed
          fun _ => orderly_release (orderly_release ?_)
      rw [List.erase_cons_head, List.erase_cons_head]
      exact (restores_write _).followed fun _ => rfl
    · rw [List.erase_cons_head]
      exact ih true

/-- One round of `wait_process` gives `wait_lock` up, or comes to the next with it. -/
theorem orderly_waitBody (status : Bool) :
    Orderly me (waitBody img me status : Code H (CInt × Option CInt))
      (fun _ held => held = []) [.wait] := by
  refine orderly_bind.mpr ((orderly_waitScan me status slots false).mono ?_)
  rintro (result | havekids) held rfl
  · exact rfl
  · have hend : ∀ (last : Kernel → Kernel) (killed : Bool),
        Orderly me (if !havekids || killed then do
          write last
          release .wait
          return (-1, none)
        else do
          write (setPhase me .armed)
          sleep img (me.map .proc) (some .wait)
          write (setPhase me .scanning)
          .perform (.waitLoop me status) : Code H (CInt × Option CInt))
        (fun _ held => held = []) [.wait] := by
      refine fun last killed => orderly_ite (fun _ => ?_) fun _ => ?_
      · exact (restores_write _).followed fun _ => List.erase_cons_head ..
      · exact (restores_write _).followed fun _ =>
          (restores_sleep (.inl guards_wait) _).followed fun _ =>
            (restores_write _).followed fun _ => ⟨rfl, rfl, fun _ => rfl⟩
    refine orderly_ite (fun _ => ?_) fun _ => hend _ false
    exact (restores_deref me).followed fun p => (restores_read _).followed fun killed => hend _ _

omit [DecidableEq H] in
theorem restores_waitProcess (status : Bool) :
    Restores me [] (waitProcess status : Code H (CInt × Option CInt)) :=
  orderly_myproc (orderly_acquire (.nil _) ((restores_write _).followed fun _ =>
    ⟨rfl, rfl, fun _ => rfl⟩))

end Functions

/-! ## Soundness -/

section Soundness

variable {H : Type} [DecidableEq H] {img : Image} {creators : Slot → Prop} {s s' : Spot H}

/-- What is left to do on the spot takes locks upwards only. -/
def Spot.Safe (s : Spot H) : Prop :=
  Orderly (s.world.cpus s.hart).proc s.code (fun _ _ => True) s.held

theorem taken_current (w : World H) (h : H) (lk : Lock) :
    ((w.taken h lk).cpus h).proc = (w.cpus h).proc := by
  simp [World.taken, World.pushed, World.setLock, World.setCpu, World.setSie, World.setCsr]

theorem dropped_current (w : World H) (h : H) (lk : Lock) :
    ((w.dropped h lk).cpus h).proc = (w.cpus h).proc := by
  unfold World.dropped World.popped
  split <;> simp [World.setLock, World.setCpu, World.setSie, World.setCsr]

theorem noted_current (w : World H) (h : H) :
    ((w.noted h).cpus h).proc = (w.cpus h).proc := by
  simp [World.noted, World.setCpu]

theorem Executes.safe (step : Executes img s s') (safe : s.Safe) : s'.Safe := by
  unfold Spot.Safe at safe ⊢
  cases step with
  | act =>
    obtain ⟨hproc, hnext⟩ := safe
    rw [hproc]
    exact hnext _
  | choose answer => exact safe answer
  | acquire =>
    rw [taken_current]
    exact safe.2
  | release =>
    rw [dropped_current]
    exact safe
  | myproc =>
    rw [noted_current]
    exact safe
  | waitLoop =>
    obtain ⟨hp, hheld, hnext⟩ := safe
    rw [hheld, hp]
    refine orderly_bind.mpr ((orderly_waitBody _).mono ?_)
    rintro answer held rfl
    exact hnext answer
  | swtch hproc =>
    rw [hproc]
    exact safe
  | others hcpu =>
    rw [hcpu]
    exact safe
  | interrupted _ hproc =>
    rw [hproc]
    exact safe

theorem Starts.safe (starts : Starts img creators s) (hnone : ∀ p, ¬ creators p) : s.Safe := by
  have hend : ∀ {α : Type} {me : Option Slot} {held : List Lock} {program : Code H α},
      Restores me held program →
        Orderly me (program >>= fun _ => pure ()) (fun _ _ => True) held :=
    fun h => h.followed fun _ => trivial
  have hall : ∀ {me : Option Slot} {held : List Lock} {program : Code H Unit},
      Restores me held program → Orderly me program (fun _ _ => True) held :=
    fun h => h.mono fun _ _ _ => trivial
  cases starts with
  | @createProcess h w entrypoint hcreator =>
    have hme : (w.cpus h).proc = none :=
      Option.eq_none_iff_forall_ne_some.mpr fun p hp => hnone p (hcreator p hp)
    have hcreate : Restores (w.cpus h).proc []
        (Process.createProcess img entrypoint : Code H CInt) := by
      rw [hme]
      exact orderly_createProcess entrypoint
    exact hend hcreate
  | exitProcess h w status =>
    exact orderly_bind.mpr ((orderly_exitProcess status).mono fun never => never.elim)
  | waitProcess h w status => exact hend (restores_waitProcess status)
  | sleep chan hlk => exact hall (restores_sleep hlk chan)
  | wakeup h w chan hheld => exact hall (restores_wakeup (.guards hheld) chan)
  | yield h w => exact hall restores_yield
  | allocPage h w => exact hend (restores_liftMem (.nil 2) _)
  | freePage h w page => exact hall (restores_liftMem (.nil 2) _)
  | printf h w text => exact hall (restores_printf (.nil 2) text)
  | timerInterrupt h w => exact hall restores_timerInterrupt

theorem Comes.safe (comes : Comes img creators s) (hnone : ∀ p, ¬ creators p) : s.Safe := by
  obtain ⟨start, starts, hpath⟩ := comes
  induction hpath with
  | refl => exact starts.safe hnone
  | tail _ step ih => exact step.safe ih

/-- Without a `create_process` by a process every pair raises the rank. -/
theorem LockOrder.rank_lt {lk lk' : Lock} (hnone : ∀ p, ¬ creators p)
    (order : LockOrder H img creators lk lk') : lk.rank < lk'.rank := by
  obtain ⟨s, comes, hheld, next, hcode⟩ := order
  have safe := comes.safe hnone
  rw [Spot.Safe, hcode] at safe
  exact safe.1 lk hheld

theorem acyclic_of_none (hnone : ∀ p, ¬ creators p) : Acyclic (LockOrder H img creators) :=
  .of_rank Lock.rank fun order => order.rank_lt hnone

end Soundness

end Xv6Kernel.Process
