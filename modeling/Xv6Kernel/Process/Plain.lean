import Xv6Kernel.Foundation.Watching
import Xv6Kernel.Process.Machine

/-!
# Code that dispatches nobody

Of all the code that runs on the stack of a scheduler only the scheduler itself makes
a process `RUNNING`.  The rest, `main` until it calls `scheduler` and the handler of
traps, is `Plain`: its accesses let no slot become `RUNNING`, and all it calls are the
functions on spinlocks and `myproc`.
-/

namespace Xv6Kernel.Process

open Xv6Kernel.Foundation Xv6Kernel.Mm

variable {H : Type} {α β : Type}

/-- No slot becomes `RUNNING`. -/
def Undispatched (k k' : Kernel) : Prop :=
  ∀ p, (k'.proc p).state = .running → (k.proc p).state = .running

theorem Undispatched.refl (k : Kernel) : Undispatched k k := fun _ => id

theorem Undispatched.update {k k' : Kernel} {q : Slot} {s : Proc}
    (hproc : k'.proc = Function.update k.proc q s)
    (hs : s.state = .running → (k.proc q).state = .running) : Undispatched k k' := by
  intro p hp
  rw [hproc] at hp
  by_cases heq : p = q
  · subst heq
    rw [Function.update_self] at hp
    exact hs hp
  · rwa [Function.update_of_ne heq] at hp

def Instr.Plain : Instr H β → Prop
  | .act f => ∀ h w, Undispatched w.kernel (f h w).2.kernel
  | .choose _ | .panic _ | .diverge | .swtch .. => True
  | .acquire _ | .release _ | .spin _ | .myproc => True
  | _ => False

def Plain (code : Code H α) : Prop := code.Every fun i => i.Plain

namespace Plain

variable {code : Code H α} {rest : α → Code H β}

theorem pure (value : α) : Plain (Pure.pure value : Code H α) := trivial

theorem bind (hcode : Plain code) (hrest : ∀ value, Plain (rest value)) :
    Plain (code >>= rest) :=
  Program.Every.bind hcode hrest

theorem perform {i : Instr H α} (hi : i.Plain) : Plain (.perform i) :=
  Program.every_perform hi

theorem ite {c : Prop} [Decidable c] {p q : Code H α} (hp : Plain p) (hq : Plain q) :
    Plain (if c then p else q) := by
  split
  · exact hp
  · exact hq

theorem when {c : Prop} [Decidable c] {p : Code H Unit} {rest : Unit → Code H β}
    (hp : Plain p) (hrest : ∀ u, Plain (rest u)) :
    Plain (if c then p >>= rest else rest ()) :=
  ite (bind hp hrest) (hrest ())

theorem forEach {ι : Type} {items : List ι} {body : ι → Code H Unit}
    (hbody : ∀ item, Plain (body item)) : Plain (Program.forEach items body) := by
  induction items with
  | nil => exact trivial
  | cons item items ih => exact (hbody item).bind fun _ => ih

/-! ## Accesses -/

/-- An access that leaves the process table alone. -/
theorem still {f : H → World H → β × World H}
    (hf : ∀ h w, (f h w).2.kernel.proc = w.kernel.proc) : Plain (act f) :=
  perform fun h w p hp => by rwa [hf] at hp

theorem read (f : Kernel → β) : Plain (Process.read f : Code H β) := still fun _ _ => rfl

theorem write {f : Kernel → Kernel} (hf : ∀ k, Undispatched k (f k)) :
    Plain (Process.write f : Code H Unit) :=
  perform fun _ w => hf w.kernel

theorem readProc (p : Slot) (f : Proc → β) : Plain (Process.readProc p f : Code H β) := read _

theorem writeProc (p : Slot) {f : Proc → Proc}
    (hf : ∀ s, (f s).state = .running → s.state = .running) :
    Plain (Process.writeProc p f : Code H Unit) :=
  write fun _ => .update rfl (hf _)

theorem panic (message : String) : Plain (Process.panic message : Code H α) :=
  perform trivial

theorem choose : Plain (Process.choose α : Code H α) := perform trivial

theorem deref (pointer : Option α) : Plain (Process.deref pointer : Code H α) := by
  cases pointer with
  | none => exact panic _
  | some target => exact pure target

theorem acquire (lk : Lock) : Plain (Process.acquire lk : Code H Unit) := perform trivial
theorem release (lk : Lock) : Plain (Process.release lk : Code H Unit) := perform trivial
theorem myproc : Plain (Process.myproc : Code H (Option Slot)) := perform trivial

/-! ## Memory and the console -/

theorem liftMem (program : MemM α) : Plain (Process.liftMem program : Code H α) := by
  induction program with
  | done value => exact trivial
  | step i next ih =>
      cases i with
      | touch f => exact bind (still fun _ _ => rfl) ih
      | critical f =>
          exact bind (acquire _) fun _ => bind (still fun _ _ => rfl) fun answer =>
            bind (release _) fun _ => ih answer
      | panic message => exact panic _
      | diverge => exact perform trivial

theorem printf (text : String) : Plain (Process.printf text : Code H Unit) :=
  bind (still fun _ _ => rfl) fun _ => bind (acquire _) fun _ =>
    bind (forEach fun _ => write fun k => .refl k) fun _ => release _

/-! ## Creating processes -/

theorem freeProcess (img : Image) (p : Slot) (reaper : Option Slot) :
    Plain (Process.freeProcess img p reaper : Code H Unit) := by
  have clear : Plain (Process.write (Kernel.cleared p reaper) : Code H Unit) := by
    refine write fun k => ?_
    have hclear : Undispatched k (k.setProc p Proc.cleared) := .update rfl (by simp [Proc.cleared])
    cases reaper with
    | none => exact hclear
    | some r => exact hclear
  exact bind (readProc ..) fun _ => when (liftMem _) fun _ => bind (writeProc p fun _ => id)
    fun _ => bind (readProc ..) fun _ =>
      ite (bind (readProc ..) fun _ => bind (liftMem _) fun _ => clear) clear

theorem allocpid (p : Slot) : Plain (Process.allocpid p : Code H CInt) :=
  bind (acquire _) fun _ => bind (read _) fun _ => bind (write fun k => .refl k) fun _ =>
    bind (release _) fun _ => pure _

theorem allocScan (ps : List Slot) : Plain (Process.allocScan ps : Code H (Option Slot)) := by
  induction ps with
  | nil => exact trivial
  | cons p ps ih =>
      exact bind (acquire _) fun _ => bind (readProc ..) fun _ =>
        ite (pure _) (bind (release _) fun _ => ih)

theorem allocFound (img : Image) (p : Slot) :
    Plain (Process.allocFound img p : Code H (Option Slot)) := by
  have fail : Plain (do
      Process.freeProcess img p none
      Process.release (.proc p)
      return none : Code H (Option Slot)) :=
    bind (freeProcess ..) fun _ => bind (release _) fun _ => pure _
  refine bind (allocpid p) fun pid => bind (writeProc p fun _ h => nomatch h) fun _ =>
    bind (printf _) fun _ =>
    bind (liftMem _) fun trapframe => bind (writeProc p fun _ => id) fun _ => ite fail ?_
  exact bind (liftMem _) fun pagetable => bind (writeProc p fun _ => id) fun _ => ite fail
    (bind (writeProc p fun _ => id) fun _ => pure _)

theorem allocProcess (img : Image) : Plain (Process.allocProcess img : Code H (Option Slot)) := by
  refine bind (allocScan _) fun found => ?_
  cases found with
  | none => exact pure _
  | some p => exact allocFound img p

theorem createWith (p : Slot) (entrypoint : Word) :
    Plain (Process.createWith p entrypoint : Code H CInt) := by
  have publish : ∀ currP, Plain (do
      let child ← Process.read fun k => (k.shadow p).serial
      Process.write fun k =>
        (k.setProc p fun s =>
          { s with context := { s.context with s0 := entrypoint }, state := .runnable }).fork
          p currP entrypoint
      Process.release (.proc p)
      act fun _ w =>
        ((w.kernel.proc p).pid, { w with kernel := w.kernel.recordCreated p currP child }) :
      Code H CInt) := fun currP =>
    bind (read _) fun _ => bind (write fun k => .update rfl fun h => nomatch h) fun _ =>
      bind (release _) fun _ => still fun _ _ => rfl
  exact bind myproc fun currP => ite (bind (acquire _) fun _ =>
    bind (writeProc p fun _ => id) fun _ => bind (release _) fun _ => publish currP)
    (publish currP)

theorem createProcess (img : Image) (entrypoint : Word) :
    Plain (Process.createProcess img entrypoint : Code H CInt) := by
  refine bind (allocProcess img) fun found => ?_
  cases found with
  | none => exact panic _
  | some p => exact createWith p entrypoint

theorem userinit (img : Image) : Plain (Process.userinit img : Code H Unit) := by
  refine bind (allocProcess img) fun found => bind (write fun k => .refl k) fun _ => ?_
  cases found with
  | none => exact panic _
  | some p =>
      exact bind (write fun k => .update rfl fun h => nomatch h) fun _ => bind (release _) fun _ =>
        bind (readProc ..) fun _ => printf _

/-! ## Spinlocks -/

variable [DecidableEq H]

theorem pushOff : Plain (Process.pushOff : Code H Unit) :=
  bind (still fun _ _ => rfl) fun _ => bind (still fun _ _ => rfl) fun _ =>
    bind (still fun _ _ => rfl) fun _ => when (still fun _ _ => rfl) fun _ =>
      still fun _ _ => rfl

theorem popOff : Plain (Process.popOff : Code H Unit) :=
  bind (still fun _ _ => rfl) fun _ => when (panic _) fun _ =>
    bind (still fun _ _ => rfl) fun _ => when (panic _) fun _ =>
      bind (still fun _ _ => rfl) fun _ => bind (still fun _ _ => rfl) fun _ =>
        ite (bind (still fun _ _ => rfl) fun _ => ite (still fun _ _ => rfl) (pure _)) (pure _)

theorem holding (lk : Lock) : Plain (Process.holding lk : Code H Bool) :=
  bind (still fun _ _ => rfl) fun _ => ite
    (bind (still fun _ _ => rfl) fun _ => bind (still fun _ _ => rfl) fun _ => pure _) (pure _)

omit [DecidableEq H] in
theorem spinBody (lk : Lock) : Plain (Process.spinBody lk : Code H Unit) := by
  have test : Plain (testAndSet lk : Code H Bool) := by
    refine still fun h w => ?_
    cases (w.lock lk).locked <;> rfl
  exact bind test fun _ => ite (perform trivial) (pure _)

theorem acquireBody (lk : Lock) : Plain (Process.acquireBody lk : Code H Unit) :=
  bind pushOff fun _ => bind (holding lk) fun _ => when (panic _) fun _ =>
    bind (perform trivial) fun _ => still fun _ _ => rfl

theorem releaseBody (lk : Lock) : Plain (Process.releaseBody lk : Code H Unit) :=
  bind (holding lk) fun _ => when (panic _) fun _ => bind (still fun _ _ => rfl) fun _ =>
    bind (still fun _ _ => rfl) fun _ => popOff

theorem myprocBody : Plain (Process.myprocBody : Code H (Option Slot)) :=
  bind pushOff fun _ => bind (still fun _ _ => rfl) fun _ => bind popOff fun _ => pure _

theorem called {img : Image} {quiet : Bool} {i : Instr H β} {body : Code H β} (hi : i.Plain)
    (hbody : (platform img quiet : Platform _ H _ _).effect i = .call body) : Plain body := by
  cases i with
  | act f | choose | panic message | swtch old new regs => cases hbody
  | diverge => cases hbody; exact perform trivial
  | acquire lk => cases hbody; exact acquireBody lk
  | release lk => cases hbody; exact releaseBody lk
  | spin lk => cases hbody; exact spinBody lk
  | myproc => cases hbody; exact myprocBody
  | waitLoop | scheduling | initLoop | client | enter | atEntry | wfi => cases hi

/-! ## The handler of traps -/

omit [DecidableEq H] in
theorem swtchToCpu (img : Image) (p : Slot) : Plain (Process.swtchToCpu img p : Code H Unit) :=
  bind (still fun _ _ => rfl) fun _ => bind choose fun _ => perform trivial

theorem sched (img : Image) : Plain (Process.sched img : Code H Unit) :=
  bind myproc fun _ => bind (deref _) fun p => bind (holding _) fun _ =>
    when (panic _) fun _ => bind (still fun _ _ => rfl) fun _ =>
      when (panic _) fun _ => bind (readProc ..) fun _ =>
        when (panic _) fun _ => bind (still fun _ _ => rfl) fun _ =>
          when (panic _) fun _ => bind (still fun _ _ => rfl) fun _ =>
            bind (swtchToCpu img p) fun _ => still fun _ _ => rfl

theorem yield (img : Image) : Plain (Process.yield img : Code H Unit) :=
  bind myproc fun p => bind (deref p) fun p => bind (acquire _) fun _ =>
    bind (writeProc p fun _ h => nomatch h) fun _ => bind (sched img) fun _ => release _

omit [DecidableEq H] in
theorem wakeup (chan : Option Chan) : Plain (Process.wakeup chan : Code H Unit) := by
  refine forEach fun p => bind myproc fun _ => ite ?_ (pure _)
  refine bind (acquire _) fun _ => bind (write fun k => ?_) fun _ => release _
  unfold Kernel.wake
  split
  · exact .update rfl fun h => nomatch h
  · exact .refl k

omit [DecidableEq H] in
theorem timerInterrupt : Plain (Process.timerInterrupt : Code H Unit) :=
  bind (write fun k => .refl k) fun _ => bind (acquire _) fun _ => bind (wakeup _) fun _ =>
    bind (release _) fun _ => bind (read _) fun _ => printf _

omit [DecidableEq H] in
theorem devintr : Plain (Process.devintr : Code H CInt) := by
  refine bind (still fun _ _ => rfl) fun scause => ite ?_ (ite ?_ (pure _))
  · exact bind choose fun irq => ite (bind choose fun _ => pure _)
      (ite (bind (panic _) fun _ => pure _) (ite (bind (printf _) fun _ => pure _) (pure _)))
  · exact bind timerInterrupt fun _ => pure _

omit [DecidableEq H] in
theorem reportTrap (scause : Word) : Plain (Process.reportTrap scause : Code H Unit) :=
  bind (still fun _ _ => rfl) fun _ => bind choose fun _ => printf _

theorem kerneltrap (img : Image) : Plain (Process.kerneltrap img : Code H Unit) := by
  have finish : ∀ (sepc : Word) (sstatus : Sstatus) (whichDev : CInt), Plain (do
      if whichDev = 2 then
        if (← Process.myproc).isSome then
          Process.yield img
      writeCsr fun c => { c with sepc }
      writeCsr fun c => { c with sstatus } : Code H Unit) := by
    intro sepc sstatus whichDev
    have restore : Plain (do
        writeCsr fun c => { c with sepc }
        writeCsr fun c => { c with sstatus } : Code H Unit) :=
      bind (still fun _ _ => rfl) fun _ => still fun _ _ => rfl
    exact ite (bind myproc fun _ => when (yield img) fun _ => restore) restore
  refine bind (still fun _ _ => rfl) fun sepc => bind (still fun _ _ => rfl) fun sstatus =>
    bind (still fun _ _ => rfl) fun scause => when (panic _) fun _ =>
      bind (still fun _ _ => rfl) fun _ => when (panic _) fun _ => ite ?_ (ite ?_ ?_)
  · exact bind devintr fun _ => ite (bind (reportTrap _) fun _ => bind (panic _) fun _ =>
      finish sepc sstatus _) (finish sepc sstatus _)
  · exact bind (panic _) (finish sepc sstatus)
  · exact ite (bind (panic _) (finish sepc sstatus)) (ite (bind (panic _) (finish sepc sstatus))
      (bind (reportTrap _) fun _ => bind (panic _) (finish sepc sstatus)))

theorem kernelvec (img : Image) : Plain (Process.kernelvec img : Code H Unit) :=
  bind (kerneltrap img) fun _ => still fun _ _ => rfl

end Plain

/-! ## Plain code under watch -/

variable [DecidableEq H]

/-- Of the accesses and calls of plain code the watch knows nothing but that they let no
slot become `RUNNING`. -/
structure Lenient {G : Type} {img : Image} {quiet : Bool}
    (D : Watch (platform img quiet : Platform (Instr H) H (Ctx H) (World H)) G) : Prop where
  access : ∀ {w w' g}, D.Inv w g → Undispatched w.kernel w'.kernel →
    D.Allowed w g w' ∧ D.Away w g w' (D.next w w' g)
  pre : ∀ {β : Type} {i : Instr H β} {w g}, i.Plain → D.pre i w g
  post : ∀ {β : Type} {i : Instr H β} {w g answer w' g'}, i.Plain →
    D.post i w g answer w' g' → D.Away w g w' g'

theorem undispatched_transfer (old new : Ctx H) (regs : Context) (h : H) (w : World H) :
    Undispatched w.kernel (transfer old new regs h w).kernel := by
  cases old with
  | cpu c => exact .refl _
  | proc p => exact .update rfl id

section Watch

variable {G : Type} {img : Image} {quiet : Bool} {h : H} {w : World H} {g : G}
  {D : Watch (platform img quiet : Platform (Instr H) H (Ctx H) (World H)) G}

/-- The rest of a program, after something plain. -/
theorem Lenient.later {w' : World H} {g' : G} {code : Code H α} (haway : D.Away w g w' g')
    (hsafe : D.safe h code (fun _ w'' g'' => D.Away w' g' w'' g'') w' g')
    (hinv : D.Inv w' g') : D.safe h code (fun _ w'' g'' => D.Away w g w'' g'') w' g' :=
  Watch.safe_mono hinv (fun _ _ _ _ haway' => D.away_trans haway haway') hsafe

theorem Lenient.safe (lenient : Lenient D) {code : Code H α} (hplain : Plain code)
    (hinv : D.Inv w g) :
    D.safe h code (fun _ w' g' => D.Away w g w' g') w g := by
  induction code generalizing w g with
  | done value => exact D.away_refl
  | step i next ih =>
      obtain ⟨hi, hnext⟩ := hplain
      intro w' g' pause hinv'
      have call : ∀ {body}, (platform img quiet : Platform (Instr H) H (Ctx H) (World H)).effect i =
          .call body → D.Does h i (fun answer => D.safe h (next answer)
            fun _ w'' g'' => D.Away w g w'' g'') w' g' := by
        intro body hbody
        unfold Watch.Does
        rw [hbody]
        refine ⟨lenient.pre hi, fun answer w'' g'' hinv'' hpost => ?_⟩
        exact later (D.away_trans pause.away (lenient.post hi hpost))
          (ih answer (hnext answer) hinv'') hinv''
      cases i with
      | act f =>
          obtain ⟨hallowed, haway⟩ := lenient.access hinv' (hi h w')
          exact ⟨hallowed, later (D.away_trans pause.away haway)
            (ih _ (hnext _) (D.inv_next hinv')) (D.inv_next hinv')⟩
      | choose =>
          exact fun answer => later pause.away (ih answer (hnext answer) hinv') hinv'
      | panic message => trivial
      | swtch old new regs =>
          intro _
          obtain ⟨hallowed, haway⟩ := lenient.access hinv'
            (undispatched_transfer old new regs h w')
          refine ⟨hallowed, fun w'' g'' hinv'' haway' => ?_⟩
          exact later (D.away_trans pause.away (D.away_trans haway haway'))
            (ih () (hnext ()) hinv'') hinv''
      | diverge | acquire | release | spin | myproc => exact call rfl
      | waitLoop | scheduling | initLoop | client | enter | atEntry | wfi => cases hi

theorem Lenient.seq (lenient : Lenient D) {code : Code H α} {rest : α → Code H β}
    {Q : β → World H → G → Prop} (hplain : Plain code) (hinv : D.Inv w g)
    (hrest : ∀ value w' g', D.Inv w' g' → D.Away w g w' g' → D.safe h (rest value) Q w' g') :
    D.safe h (code >>= rest) Q w g :=
  Watch.safe_seq hinv (lenient.safe hplain hinv) hrest

end Watch

end Xv6Kernel.Process
