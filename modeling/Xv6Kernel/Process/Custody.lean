import Xv6Kernel.Foundation.Layers
import Xv6Kernel.Process.Overflow
import Xv6Kernel.Process.PageRuns
import Xv6Kernel.Process.Returns
import Xv6Kernel.Process.Tame

/-!
# Where the kernel takes and gives pages

On one hart pages only change hands while the lock of a slot is held and interrupts are
off, in `alloc_process` from the slot found on and in `free_process`.  Nothing comes
between the instructions of the two, so that a run of the kernel is one of page steps
whenever no slot is locked.
-/

namespace Xv6Kernel.Process

open Xv6Kernel.Foundation Xv6Kernel.Mm Relation

variable {S : Setting Unit} {start : Memory} {w w' : World Unit} {g g' : Unit} {α β : Type}
  {p : Slot} {n n' m : Nat} {lk : Lock}

/-- What has happened since the boot is a run of page steps. -/
def Stepped (S : Setting Unit) (start : Memory) (w : World Unit) : Prop :=
  ReflTransGen (PageStep S.img S.quiet ()) (bootWorld start) w

theorem StateMove.from_unused {c : Ctx Unit} {k : Kernel} {s : ProcState}
    (hmove : StateMove c p k .unused s) : s = .unused ∨ s = .used := by
  cases hmove with
  | still => exact .inl rfl
  | alloc => exact .inr rfl

theorem Stepped.keep (stepped : Stepped S start w) (hkeeps : w.kernel.KeepsPages w'.kernel)
    (hmoves : ∀ p, StateMove (w.cur ()) p w.kernel (w.kernel.state p) (w'.kernel.state p)) :
    Stepped S start w' := by
  refine stepped.tail (.other hkeeps.1 (fun p => ⟨(hkeeps.2 p).1, (hkeeps.2 p).2.1⟩) fun p => ?_)
  obtain ⟨-, -, hsame | ⟨hused, hnew⟩⟩ := hkeeps.2 p
  · rw [hsame]
  · refine iff_of_false hused fun hunused => ?_
    have hmove := hmoves p
    rw [Kernel.state, hunused] at hmove
    rcases hmove.from_unused with heq | heq
    · exact hused heq
    · exact hnew heq

/-- The hart holds the lock of the slot, with interrupts off and `noff` above `n`. -/
structure Inside (p : Slot) (n : Nat) (w : World Unit) : Prop where
  sie : (w.csr ()).sstatus.sie = false
  noff : n < (w.cpus ()).noff
  locked : (w.lock (.proc p)).locked = some ()

theorem Inside.withKernel (inside : Inside p n w) (k : Kernel) : Inside p n (w.withKernel k) :=
  ⟨inside.sie, inside.noff, inside.locked⟩

theorem Inside.setLock {f : SpinLock Unit → SpinLock Unit} (inside : Inside p n w)
    (hlk : lk ≠ .proc p) : Inside p n (w.setLock lk f) := by
  refine ⟨inside.sie, inside.noff, ?_⟩
  simpa [World.setLock, Function.update_of_ne (Ne.symm hlk)] using inside.locked

theorem Inside.setCpu (inside : Inside p n w) {f : Cpu → Cpu} (hf : n' < (f (w.cpus ())).noff) :
    Inside p n' (w.setCpu () f) :=
  ⟨inside.sie, by simpa [World.setCpu] using hf, inside.locked⟩

theorem Inside.intrOff (inside : Inside p n w) : Inside p n (w.setSie () false) :=
  ⟨by simp [World.setSie, World.setCsr], inside.noff, inside.locked⟩

/-- The calls made while the lock of a slot is held, and how deep `push_off` is nested before
and after them. -/
inductive Crosses (p : Slot) : {β : Type} → Instr Unit β → Nat → Nat → Prop where
  | acquire {lk : Lock} {n : Nat} (hlk : lk ≠ .proc p) : Crosses p (.acquire lk) n (n + 1)
  | release {lk : Lock} {n : Nat} (hlk : lk ≠ .proc p) : Crosses p (.release lk) (n + 1) n
  | spin {lk : Lock} {n : Nat} (hlk : lk ≠ .proc p) : Crosses p (.spin lk) n n

/-- What a call is known to do: nothing with the pages, or to run alone in the hold of a
slot's lock. -/
abbrev Mode := Option (Slot × Nat × Nat)

def Mode.Before (S : Setting Unit) (start : Memory) (i : Instr Unit β) (w : World Unit) :
    Mode → Prop
  | none => Stepped S start w
  | some (p, n, m) => Crosses p i n m ∧ Inside p n w

def Mode.After (S : Setting Unit) (start : Memory) (i : Instr Unit β) (w : World Unit) (answer : β)
    (w' : World Unit) : Mode → Prop
  | none => Stepped S start w'
  | some (p, _, m) => Inside p m w' ∧
      Alone (platform S.img S.quiet) () (Program.perform i) w (.ok (answer, w'))

def Instr.Diverges : Instr Unit β → Prop
  | .diverge => True
  | _ => False

/-- Page steps, over what is known of the kernel on one hart. -/
def pageLayer (S : Setting Unit) (start : Memory) : Layer (logic S) Unit where
  next _ _ _ := ()
  Inv w _ := (∀ p, (w.lock (.proc p)).locked = none) → Stepped S start w
  May _ := True
  Keep _ _ _ _ _ := True
  Resume _ w _ := Stepped S start w
  Preempt _ _ w' _ := Stepped S start w'
  pre i w _ := i.Diverges ∨ ∃ mode, Mode.Before S start i w mode
  post i w _ answer w' _ := ∀ mode, Mode.Before S start i w mode →
    Mode.After S start i w answer w' mode
  next_self _ _ := rfl
  keep_trans _ _ := trivial

/-! ## In the hold of a slot's lock -/

/-- Code that stays in the hold of the lock; `n` and `m` are the depths before and after. -/
inductive Within (p : Slot) : Nat → Nat → Code Unit α → Prop where
  | done {n : Nat} (value : α) : Within p n n (.done value)
  | act {n n' m : Nat} {β : Type} {f : Unit → World Unit → β × World Unit} {next : β → Code Unit α}
      (R : β → Prop) (hf : ∀ w, Inside p n w → Inside p n' (f () w).2 ∧ R (f () w).1)
      (hnext : ∀ answer, R answer → Within p n' m (next answer)) :
      Within p n m (.step (.act f) next)
  | cross {n n' m : Nat} {β : Type} {i : Instr Unit β} {next : β → Code Unit α}
      (crosses : Crosses p i n n') (hnext : ∀ answer, Within p n' m (next answer)) :
      Within p n m (.step i next)
  | halts {n m : Nat} {β : Type} (message : String) {next : β → Code Unit α} :
      Within p n m (.step (.panic message) next)
  | diverges {n m : Nat} {β : Type} {next : β → Code Unit α} : Within p n m (.step .diverge next)

namespace Within

theorem pure (value : α) : Within p n n (Pure.pure value : Code Unit α) := .done value

theorem bind {code : Code Unit α} {rest : α → Code Unit β} (hcode : Within p n n' code)
    (hrest : ∀ value, Within p n' m (rest value)) : Within p n m (code >>= rest) := by
  induction hcode with
  | done value => exact hrest value
  | act R hf _ ih => exact .act R hf fun answer hR => ih answer hR hrest
  | cross crosses _ ih => exact .cross crosses fun answer => ih answer hrest
  | halts message => exact .halts message
  | diverges => exact .diverges

theorem access {f : Unit → World Unit → β × World Unit}
    (hf : ∀ w, Inside p n w → Inside p n' (f () w).2) : Within p n n' (Process.act f) :=
  .act (fun _ => True) (fun w inside => ⟨hf w inside, trivial⟩) fun answer _ => .done answer

/-- An access to data only. -/
theorem data {f : Unit → World Unit → β × World Unit}
    (hf : ∀ w, ∃ k, (f () w).2 = w.withKernel k) : Within p n n (Process.act f) :=
  access fun w inside => by
    obtain ⟨k, heq⟩ := hf w
    rw [heq]
    exact inside.withKernel k

theorem read (f : Kernel → β) : Within p n n (Process.read f : Code Unit β) :=
  data fun w => ⟨w.kernel, rfl⟩

theorem readProc (q : Slot) (f : Proc → β) : Within p n n (Process.readProc q f : Code Unit β) :=
  read _

theorem write (f : Kernel → Kernel) : Within p n n (Process.write f : Code Unit Unit) :=
  data fun w => ⟨f w.kernel, rfl⟩

theorem writeProc (q : Slot) (f : Proc → Proc) :
    Within p n n (Process.writeProc q f : Code Unit Unit) := write _

theorem panic (message : String) : Within p n m (Process.panic message : Code Unit α) :=
  .halts message

theorem acquire (hlk : lk ≠ .proc p) : Within p n (n + 1) (Process.acquire lk : Code Unit Unit) :=
  .cross (.acquire hlk) fun _ => .done ()

theorem release (hlk : lk ≠ .proc p) : Within p (n + 1) n (Process.release lk : Code Unit Unit) :=
  .cross (.release hlk) fun _ => .done ()

theorem ite {c : Prop} [Decidable c] {code code' : Code Unit α} (hcode : Within p n m code)
    (hcode' : Within p n m code') : Within p n m (if c then code else code') := by
  split
  · exact hcode
  · exact hcode'

theorem forEach {ι : Type} {items : List ι} {body : ι → Code Unit Unit}
    (hbody : ∀ item, Within p n n (body item)) : Within p n n (Program.forEach items body) := by
  induction items with
  | nil => exact .done ()
  | cons item items ih => exact bind (hbody item) fun _ => ih

theorem liftMem (program : MemM α) : Within p n n (Process.liftMem program : Code Unit α) := by
  induction program with
  | done value => exact .done _
  | step i next ih =>
    cases i with
    | touch f => exact bind (data fun w => ⟨_, rfl⟩) ih
    | critical f =>
      exact bind (acquire nofun) fun _ => bind (data fun w => ⟨_, rfl⟩) fun answer =>
        bind (release nofun) fun _ => ih answer
    | panic message => exact panic _
    | diverge => exact .diverges

theorem printf (text : String) : Within p n n (Process.printf text : Code Unit Unit) :=
  bind (data fun _ => ⟨_, rfl⟩) fun _ => bind (acquire nofun) fun _ =>
    bind (forEach fun _ => data fun _ => ⟨_, rfl⟩) fun _ => release nofun

/-! ## The bodies of the calls -/

theorem setLock (hlk : lk ≠ .proc p) (f : Unit → SpinLock Unit → SpinLock Unit) :
    Within p n n (Process.act fun h w => ((), w.setLock lk (f h)) : Code Unit Unit) :=
  access fun _ inside => Inside.setLock (f := f ()) inside hlk

theorem writeCpu {f : Cpu → Cpu} (hf : ∀ c : Cpu, (n : Int) < c.noff → (n' : Int) < (f c).noff) :
    Within p n n' (Process.writeCpu f : Code Unit Unit) :=
  access fun _ inside => Inside.setCpu (f := f) inside (hf _ inside.noff)

theorem pushOff : Within p n (n + 1) (Process.pushOff : Code Unit Unit) := by
  have deeper : Within p n (n + 1)
      (Process.writeCpu fun c => { c with noff := c.noff + 1 } : Code Unit Unit) :=
    writeCpu fun c hc => by
      change ((n + 1 : Nat) : Int) < c.noff + 1
      omega
  refine bind (access fun _ inside => inside) fun old =>
    bind (access fun _ inside => inside.intrOff) fun _ =>
      bind (access fun _ inside => inside) fun noff => ?_
  exact ite (bind (writeCpu fun _ => id) fun _ => deeper) deeper

theorem popOff : Within p (n + 1) n (Process.popOff : Code Unit Unit) := by
  have last : Within p n n (do
      if (← readCpu (·.noff)) = 0 then
        if ← readCpu (·.intena) then
          intrOn : Code Unit Unit) := by
    refine Within.act (fun noff => noff ≠ 0) (fun w inside => ⟨inside, ?_⟩) fun noff hne => ?_
    · have hnoff := inside.noff
      change (w.cpus ()).noff ≠ 0
      omega
    · change Within p n n (if noff = 0 then _ else _)
      rw [if_neg hne]
      exact .done ()
  have rest : Within p (n + 1) n (do
      Process.writeCpu fun c => { c with noff := c.noff - 1 }
      if (← readCpu (·.noff)) = 0 then
        if ← readCpu (·.intena) then
          intrOn : Code Unit Unit) := by
    refine bind (writeCpu fun c hc => ?_) fun _ => last
    change (n : Int) < c.noff - 1
    omega
  refine bind (access fun _ inside => inside) fun _ => ?_
  have checked : Within p (n + 1) n (do
      if (← readCpu (·.noff)) < 1 then
        Process.panic "pop_off"
      Process.writeCpu fun c => { c with noff := c.noff - 1 }
      if (← readCpu (·.noff)) = 0 then
        if ← readCpu (·.intena) then
          intrOn : Code Unit Unit) :=
    bind (access fun _ inside => inside) fun _ => ite (bind (panic _) fun _ => rest) rest
  exact ite (bind (panic _) fun _ => checked) checked

theorem holding (lk : Lock) : Within p n n (Process.holding lk : Code Unit Bool) :=
  bind (access fun _ inside => inside) fun _ => ite
    (bind (access fun _ inside => inside) fun _ => bind (access fun _ inside => inside) fun _ =>
      pure _) (pure _)

theorem spinBody (hlk : lk ≠ .proc p) : Within p n n (Process.spinBody lk : Code Unit Unit) := by
  refine bind (access fun w inside => ?_) fun _ =>
    ite (.cross (.spin hlk) fun _ => .done ()) (pure _)
  split
  · exact inside
  · exact Inside.setLock (f := fun l => { l with locked := some () }) inside hlk

theorem acquireBody (hlk : lk ≠ .proc p) :
    Within p n (n + 1) (Process.acquireBody lk : Code Unit Unit) := by
  have rest : Within p (n + 1) (n + 1) (do
      .perform (.spin lk)
      Process.act fun h w => ((), w.setLock lk fun l => { l with cpu := some h }) :
        Code Unit Unit) :=
    bind (.cross (.spin hlk) fun _ => .done ()) fun _ => setLock hlk _
  exact bind pushOff fun _ => bind (holding lk) fun _ => ite (bind (panic _) fun _ => rest) rest

theorem releaseBody (hlk : lk ≠ .proc p) :
    Within p (n + 1) n (Process.releaseBody lk : Code Unit Unit) := by
  have rest : Within p (n + 1) n (do
      Process.act fun _ w => ((), w.setLock lk fun l => { l with cpu := none })
      Process.act fun _ w => ((), w.setLock lk fun l => { l with locked := none })
      Process.popOff : Code Unit Unit) :=
    bind (setLock hlk _) fun _ => bind (setLock hlk _) fun _ => popOff
  exact bind (holding lk) fun _ => ite (bind (panic _) fun _ => rest) rest

theorem body {i : Instr Unit β} {body : Code Unit β} (crosses : Crosses p i n m)
    (hbody : effect S.img i = .call body) : Within p n m body := by
  cases crosses with
  | acquire hlk => cases hbody; exact acquireBody hlk
  | release hlk => cases hbody; exact releaseBody hlk
  | spin hlk => cases hbody; exact spinBody hlk

end Within

/-! ## What runs alone -/

theorem pause_stepped (pause : (pageLayer S start).Pause w g w' g') (stepped : Stepped S start w) :
    Stepped S start w' := by
  cases pause with
  | refl => exact stepped
  | trap _ _ _ _ own => exact own

theorem pause_inside (pause : (pageLayer S start).Pause w g w' g')
    (hsie : (w.csr ()).sstatus.sie = false) : w' = w := by
  refine (pause.still fun _ wt htrap => ?_).1
  exact nomatch hsie.symm.trans htrap.1

theorem Inside.keeps (inside : Inside p n w') :
    (pageLayer S start).Keeps w g w' ((pageLayer S start).next w w' g) :=
  ⟨fun hfree => absurd (inside.locked.symm.trans (hfree p)) nofun, fun _ _ => trivial⟩

theorem safe_within {code : Code Unit α} (within : Within p n m code) (inside : Inside p n w) :
    (pageLayer S start).safe code (fun value w' _ => Inside p m w' ∧
      Alone (platform S.img S.quiet) () code w (.ok (value, w'))) w g := by
  induction within generalizing w g with
  | done value => exact ⟨inside, .done value w⟩
  | act R hf _ ih =>
    intro w₁ g₁ pause _ _ guarantee
    obtain rfl := pause_inside pause inside.sie
    obtain ⟨inside', hR⟩ := hf w₁ inside
    exact ⟨inside'.keeps, Layer.safe_mono guarantee.inv inside'.keeps.inv
      (fun _ _ _ _ _ hlast => ⟨hlast.1, .atomic rfl hlast.2⟩) (ih _ hR inside')⟩
  | @cross n n' m β i next crosses _ ih =>
    have hcalls : ∀ w₂ g₂ answer, (logic S).Inv w₂ → (pageLayer S start).Inv w₂ g₂ →
        (pageLayer S start).post i w g answer w₂ g₂ →
        (pageLayer S start).safe (next answer) (fun value w' _ => Inside p m w' ∧
          Alone (platform S.img S.quiet) () (.step i next) w (.ok (value, w'))) w₂ g₂ :=
      fun w₂ g₂ answer inv₂ inv₂' hpost => by
        obtain ⟨inside₂, halone⟩ := hpost (some (p, n, n')) ⟨crosses, inside⟩
        exact Layer.safe_mono inv₂ inv₂' (fun _ _ _ _ _ hlast =>
          ⟨hlast.1, halone.bind hlast.2⟩) (ih answer inside₂)
    have before : ∃ mode, Mode.Before S start i w mode := ⟨some (p, n, n'), crosses, inside⟩
    intro w₁ g₁ pause _ _
    obtain rfl := pause_inside pause inside.sie
    cases crosses with
    | _ => exact fun _ => ⟨.inr before, fun answer w₂ g₂ inv₂ inv₂' _ hpost =>
        hcalls w₂ g₂ answer inv₂ inv₂' hpost⟩
  | halts message => exact fun _ _ _ _ _ => trivial
  | diverges =>
    intro w₁ g₁ pause _ _ hpre
    refine ⟨.inl trivial, fun answer w₂ g₂ _ _ hpost _ => ?_⟩
    obtain ⟨l, on, hl⟩ := hpre
    exact (hpost l on hl).elim

/-! ## Code that keeps the pages -/

section Layered

variable {Q : α → World Unit → Unit → Prop}

theorem safe_access {f : Unit → World Unit → β × World Unit} {next : β → Code Unit α}
    (hf : ∀ w : World Unit, w.kernel.KeepsPages (f () w).2.kernel) (stepped : Stepped S start w)
    (hnext : ∀ answer w' g', Stepped S start w' →
      (pageLayer S start).safe (next answer) Q w' g') :
    (pageLayer S start).safe (.step (.act f) next) Q w g := by
  intro w₁ g₁ pause _ _ guarantee
  have stepped' := (pause_stepped pause stepped).keep (hf w₁) guarantee.allowed
  exact ⟨⟨fun _ => stepped', fun _ _ => trivial⟩, hnext _ _ _ stepped'⟩

theorem safe_lock (i : Instr Unit Unit) (hi : i = .acquire lk ∨ i = .release lk)
    {next : Unit → Code Unit α} (stepped : Stepped S start w)
    (hnext : ∀ w' g', Stepped S start w' → (pageLayer S start).safe (next ()) Q w' g') :
    (pageLayer S start).safe (.step i next) Q w g := by
  intro w₁ g₁ pause _ _
  have before : Mode.Before S start i w₁ none := pause_stepped pause stepped
  rcases hi with rfl | rfl <;>
    exact fun _ => ⟨.inr ⟨none, before⟩, fun _ w₂ g₂ _ _ _ hpost => hnext _ _ (hpost none before)⟩

theorem safe_printf (text : String) {rest : Unit → Code Unit α} (stepped : Stepped S start w)
    (hrest : ∀ w' g', Stepped S start w' → (pageLayer S start).safe (rest ()) Q w' g') :
    (pageLayer S start).safe (Process.printf text >>= rest) Q w g := by
  have bytes : ∀ call cs w g, Stepped S start w →
      (pageLayer S start).safe (Program.forEach cs (consputc call) >>= fun _ =>
        Process.release .print >>= rest) Q w g := by
    intro call cs
    induction cs with
    | nil => exact fun w g stepped => safe_lock _ (.inr rfl) stepped hrest
    | cons c cs ih =>
      exact fun w g stepped => safe_access (fun _ => .same rfl rfl) stepped fun _ _ _ => ih _ _
  simp only [Process.printf, bind_assoc]
  exact safe_access (fun _ => .same rfl rfl) stepped fun call w₁ g₁ stepped₁ =>
    safe_lock _ (.inl rfl) stepped₁ fun w₂ g₂ => bytes call _ w₂ g₂

theorem transfer_keepsPages {old new : Ctx Unit} {regs : Context} :
    w.kernel.KeepsPages (transfer old new regs () w).kernel := by
  cases old with
  | cpu c => exact .same rfl rfl
  | proc p => exact .update rfl rfl ⟨rfl, rfl, .inl rfl⟩

theorem safe_kept {code : Code Unit α} (tame : Tame true code) (stepped : Stepped S start w) :
    (pageLayer S start).safe code (fun _ w' _ => Stepped S start w') w g := by
  induction tame generalizing w g with
  | done value => exact stepped
  | access hf _ ih =>
    exact safe_access (fun w => (hf () w).pages rfl) stepped fun answer _ _ => ih answer
  | @other _ i next hi _ ih =>
    cases i with
    | act f => exact absurd trivial hi
    | choose =>
      intro w₁ g₁ pause _ _ answer
      exact ih answer (pause_stepped pause stepped)
    | panic message => exact fun _ _ _ _ _ => trivial
    | swtch old new regs =>
      intro w₁ g₁ pause _ _ switches
      have stepped' : Stepped S start (transfer old new regs () w₁) :=
        (pause_stepped pause stepped).keep transfer_keepsPages switches.allowed
      exact ⟨⟨fun _ => stepped', fun _ _ => trivial⟩, stepped', fun _ _ _ _ _ _ resumed _ _ =>
        ih () resumed⟩
    | _ =>
      intro w₁ g₁ pause _ _ _
      have stepped₁ := pause_stepped pause stepped
      exact ⟨.inr ⟨none, stepped₁⟩, fun answer _ _ _ _ _ hpost => ih answer (hpost none stepped₁)⟩
  | print text _ ih => exact safe_printf text stepped fun _ _ => ih ()

/-! ## What the first logic tells of the hart -/

variable {l : Local Unit}

theorem pause_on (pause : (pageLayer S start).Pause w g w' g') (inv : Inv S.img w)
    (on : On l () w) : On l () w' := (env_on inv on pause.env).1

theorem safe_acquire {Q : Unit → World Unit → Unit → Prop} (inv : Inv S.img w) (on : On l () w)
    (hhalf : l.half = none) (hdepth : l.depth = 0) (hlk : lk ∉ l.locks)
    (stepped : Stepped S start w)
    (hQ : ∀ w' g', Inv S.img w' → On { l with locks := lk :: l.locks } () w' →
      Stepped S start w' → Q () w' g') : (pageLayer S start).safe (acquire lk) Q w g := by
  intro w₁ g₁ pause _ _ _
  have stepped₁ := pause_stepped pause stepped
  refine ⟨.inr ⟨none, stepped₁⟩, fun _ w₂ g₂ inv₂ _ hpost hpost' => ?_⟩
  exact hQ w₂ g₂ inv₂ (hpost l (pause_on pause inv on) ⟨hhalf, hdepth, hlk⟩).1
    (hpost' none stepped₁)

theorem safe_release {Q : Unit → World Unit → Unit → Prop} (inv : Inv S.img w) (on : On l () w)
    (hhalf : l.half = none) (hdepth : l.depth = 0) (hlk : lk ∈ l.locks)
    (hproc : l.proc = l.ctx.slot) (stepped : Stepped S start w)
    (hQ : ∀ w' g', Inv S.img w' → On { l with locks := l.locks.erase lk } () w' →
      Stepped S start w' → Q () w' g') : (pageLayer S start).safe (release lk) Q w g := by
  intro w₁ g₁ pause _ _ hpre
  have on₁ := pause_on pause inv on
  have stepped₁ := pause_stepped pause stepped
  obtain ⟨l', on', -, -, -, -, rel⟩ := hpre
  refine ⟨.inr ⟨none, stepped₁⟩, fun _ w₂ g₂ inv₂ _ hpost hpost' => ?_⟩
  exact hQ w₂ g₂ inv₂
    (hpost l on₁ ⟨hhalf, hdepth, hlk, hproc, releasable_of_on on₁ on' rel⟩).1
    (hpost' none stepped₁)

/-- With interrupts off a read finds what is there now. -/
theorem safe_read {f : Kernel → β} {rest : β → Code Unit α} (hsie : (w.csr ()).sstatus.sie = false)
    (stepped : Stepped S start w)
    (hrest : (pageLayer S start).safe (rest (f w.kernel)) Q w g) :
    (pageLayer S start).safe (Process.read f >>= rest) Q w g := by
  intro w₁ g₁ pause _ _ _
  obtain rfl := pause_inside pause hsie
  exact ⟨⟨fun _ => stepped, fun _ _ => trivial⟩, hrest⟩

/-- The hart of a process or scheduler that holds the lock of a slot, and perhaps `wait_lock`. -/
structure Custody (p : Slot) (w : World Unit) : Prop where
  off : w.Off ()
  idle : w.Idle
  inside : Inside p 0 w

theorem On.custody (inv : Inv S.img w) (on : On l () w) (hhalf : l.half = none)
    (hdepth : l.depth = 0) (hp : .proc p ∈ l.locks)
    (hlocks : ∀ lk ∈ [Lock.print, .pid, .kmem], lk ∉ l.locks) : Custody p w := by
  have hne : l.locks.length ≠ 0 := fun hzero => by
    rw [List.eq_nil_of_length_eq_zero hzero] at hp
    cases hp
  have hsie := (on.masked (by omega)).1
  have hnoff := on.noff
  have hpos : 0 < (w.cpus ()).noff := by omega
  refine ⟨⟨by omega, hsie⟩, fun lk hlk => ?_, hsie, by exact_mod_cast hpos,
    (on.held _).mpr (.inl hp)⟩
  have hfree : (w.lock lk).locked ≠ some () := fun hlocked => by
    have hheld := (on.held lk).mp hlocked
    rw [Local.held, hhalf] at hheld
    exact hheld.elim (hlocks lk hlk) fun heq => Option.some_ne_none _ heq.symm
  have hcpu : (w.lock lk).cpu ≠ some () := fun hcpu => hfree (inv.lock_cpu hcpu)
  cases hlock : w.lock lk with
  | mk locked cpu =>
    rw [hlock] at hfree hcpu
    cases locked with
    | none =>
      cases cpu with
      | none => rfl
      | some h => exact absurd rfl hcpu
    | some h => exact absurd rfl hfree

end Layered

/-! ## alloc_process and free_process -/

section Pages

variable {m₀ : Memory} {l : Local Unit}

theorem Within.freeProcess (reaper : Option Slot) (q : Slot) :
    Within p n n (Process.freeProcess S.img q reaper : Code Unit Unit) := by
  have clear : Within p n n (Process.write (Kernel.cleared q reaper) : Code Unit Unit) := write _
  have table : Within p n n (do
      Process.writeProc q fun s => { s with trapframe := 0 }
      let pagetable ← Process.readProc q (·.pagetable)
      if pagetable ≠ 0 then
        Process.liftMem (procFreepagetable S.img pagetable (← Process.readProc q (·.sz)))
      Process.write (Kernel.cleared q reaper) : Code Unit Unit) :=
    bind (writeProc ..) fun _ => bind (readProc ..) fun _ => ite
      (bind (readProc ..) fun _ => bind (liftMem _) fun _ => clear) clear
  exact bind (readProc ..) fun _ => ite (bind (liftMem _) fun _ => table) table

/-- `free_process` of a zombie is a page step. -/
theorem safe_freeProcess (reaper : Option Slot) (inv : Inv S.img w) (custody : Custody p w)
    (hzombie : (w.kernel.proc p).state = .zombie) (stepped : Stepped S start w) :
    (pageLayer S start).safe (freeProcess S.img p reaper)
      (fun _ w' _ => Inside p 0 w' ∧ Stepped S start w') w g :=
  Layer.safe_mono inv (fun _ => stepped) (fun _ _ _ _ _ hlast => ⟨hlast.1,
    stepped.tail (.free custody.off custody.idle hzombie hlast.2)⟩)
    (safe_within (Within.freeProcess reaper p) custody.inside)

/-- `alloc_process` from `found` on until it has its trapframe. -/
def takeTrapframe (p : Slot) : Code Unit Word := do
  let pid ← allocpid p
  writeProc p fun s => { s with pid := pid, state := .used }
  printf ("alloc_process: allocated process " ++ decimal pid ++ "\n")
  let trapframe ← liftMem allocPage
  writeProc p fun s => { s with trapframe := trapframe }
  return trapframe

/-- What comes next, until it has its page table. -/
def takePagetable (img : Image) (p : Slot) : Code Unit Word := do
  let pagetable ← liftMem (procPagetable img)
  writeProc p fun s => { s with pagetable := pagetable }
  return pagetable

def giveUp (img : Image) (p : Slot) : Code Unit (Option Slot) := do
  freeProcess img p none
  release (.proc p)
  return none

theorem allocFound_eq (img : Image) (p : Slot) : (allocFound img p : Code Unit (Option Slot)) = (do
    let trapframe ← takeTrapframe p
    if trapframe = 0 then
      giveUp img p
    else do
      let pagetable ← takePagetable img p
      if pagetable = 0 then
        giveUp img p
      else do
        writeProc p fun s =>
          { s with context :=
              { Context.zero with ra := img.forkret, sp := s.kstack + pgSize } }
        return some p) := by
  simp only [takeTrapframe, takePagetable, giveUp, bind_assoc, pure_bind]
  rfl

theorem Within.takeTrapframe (q : Slot) :
    Within p n n (Process.takeTrapframe q : Code Unit Word) := by
  have hpid : Within p n n (Process.allocpid q : Code Unit CInt) :=
    bind (acquire nofun) fun _ => bind (read _) fun _ => bind (write _) fun _ =>
      bind (release nofun) fun _ => pure _
  exact bind hpid fun _ => bind (writeProc ..) fun _ => bind (printf _) fun _ =>
    bind (liftMem _) fun _ => bind (writeProc ..) fun _ => pure _

/-- `alloc_page` does not answer 0. -/
theorem takeTrapframe_ne_zero {trapframe : Word} (custody : Custody p w)
    (hrun : Alone (platform S.img S.quiet) () (takeTrapframe p) w (.ok (trapframe, w'))) :
    trapframe ≠ 0 ∧ w.kernel.memory.freelist ≠ 0 ∧ w'.kernel.memory = w.kernel.memory.pop ∧
      ∃ k, w' = w.withKernel k := by
  have hclaim : Computes S.img S.quiet () (allocpid p : Code Unit CInt) w.kernel _ _ :=
    computes_allocpid p w.kernel
  by_cases hfree : w.kernel.memory.freelist = 0
  · have hempty : exec allocPage (w.kernel.claimed p).memory = .error (.panic "alloc_page") :=
      exec_allocPage_empty hfree
    have hpanics : Panics S.img S.quiet () (takeTrapframe p) w.kernel "alloc_page" :=
      Computes.bind_panics hclaim (Computes.bind_panics (computes_writeProc p _ _)
        (Computes.bind_panics (computes_printf _ _) (panics_liftMem hempty).bind))
    cases hrun.unique (hpanics w custody.off custody.idle rfl)
  · have halloc : Computes S.img S.quiet () (liftMem allocPage) (w.kernel.claimed p)
        w.kernel.memory.freelist { w.kernel.claimed p with memory := w.kernel.memory.pop } :=
      computes_liftMem (exec_allocPage hfree)
    have hcomputes : Computes S.img S.quiet () (takeTrapframe p) w.kernel _ _ :=
      Computes.bind hclaim (Computes.bind (computes_writeProc p _ _)
        (Computes.bind (computes_printf _ _) (Computes.bind halloc
          (Computes.bind (computes_writeProc p _ _) (computes_done _ _)))))
    cases hrun.unique (hcomputes w custody.off custody.idle rfl)
    exact ⟨hfree, hfree, rfl, _, rfl⟩

theorem Within.takePagetable (q : Slot) :
    Within p n n (Process.takePagetable S.img q : Code Unit Word) :=
  bind (liftMem _) fun _ => bind (writeProc ..) fun _ => pure _

/-- `proc_pagetable` does not answer 0, since the two addresses are free in a new table. -/
theorem takePagetable_ne_zero {pagetable : Word} {pages : List Word}
    {trees : Option Slot → Tables} {others : Word → Prop} (off : w.Off ()) (idle : w.Idle)
    (range : Ranged S.img) (tramp : Trampoline S.img)
    (h : Ownership S.img w.kernel.memory pages trees others)
    (hempty : trees (some p) = fun _ => none)
    (hrun : Alone (platform S.img S.quiet) () (takePagetable S.img p) w (.ok (pagetable, w'))) :
    pagetable ≠ 0 := by
  rcases exec_procPagetable range tramp h hempty with
    ⟨-, m, pages', nodes, root, hexec, hbuilt⟩ | ⟨-, hexec⟩
  · have hcomputes : Computes S.img S.quiet () (takePagetable S.img p) w.kernel root _ :=
      Computes.bind (computes_liftMem hexec) (Computes.bind (computes_writeProc p _ _)
        (computes_done _ _))
    cases hrun.unique (hcomputes w off idle rfl)
    exact hbuilt.ne_zero
  · have hpanics : Panics S.img S.quiet () (takePagetable S.img p) w.kernel "alloc_page" :=
      (panics_liftMem hexec).bind
    cases hrun.unique (hpanics w off idle rfl)

/-- The memory that `main` finds after `procinit`. -/
structure SetUp (S : Setting Unit) (start : Memory) : Prop where
  image : KernelImage S.img
  tramp : Trampoline S.img
  boot : ∃ m₀ : Memory, m₀.freelist = 0 ∧ exec (bootMemory S.img) m₀ = .ok ((), start)

theorem SetUp.pages (setup : SetUp S start) (stepped : Stepped S start w) :
    ∃ kstack pages trees, PageInv S.img kstack w.kernel pages trees := by
  obtain ⟨m₀, hzero, hboot⟩ := setup.boot
  exact PageInv.reached setup.image setup.tramp hzero hboot stepped

/-- `alloc_process` of an unused slot is a page step. -/
theorem safe_allocFound (setup : SetUp S start) (inv : Inv S.img w) (custody : Custody p w)
    (hunused : (w.kernel.proc p).state = .unused) (stepped : Stepped S start w) :
    (pageLayer S start).safe (allocFound S.img p) (fun _ w' _ => Stepped S start w') w g := by
  obtain ⟨kstack, pages, trees, pageInv⟩ := setup.pages stepped
  have hempty := pageInv.dead fun hlive => hlive hunused
  rw [allocFound_eq]
  refine Layer.safe_seq inv (fun _ => stepped)
    (safe_within (.takeTrapframe p) custody.inside) fun trapframe w₁ g₁ inv₁ inv₁' h₁ => ?_
  obtain ⟨inside₁, hrun₁⟩ := h₁
  obtain ⟨hne, hfree, hmemory, k, hk⟩ := takeTrapframe_ne_zero custody hrun₁
  have hpopped : ∃ rest others, Ownership S.img w₁.kernel.memory rest trees others := by
    obtain ⟨rest, rfl⟩ := pageInv.owned.free.exists_cons hfree
    rw [hmemory]
    exact ⟨rest, _, pageInv.owned.pop⟩
  obtain ⟨rest, others, howned⟩ := hpopped
  change (pageLayer S start).safe (if trapframe = 0 then _ else _) _ w₁ g₁
  rw [if_neg hne]
  refine Layer.safe_seq inv₁ inv₁' (safe_within (.takePagetable p) inside₁)
    fun pagetable w₂ g₂ inv₂ inv₂' h₂ => ?_
  obtain ⟨inside₂, hrun₂⟩ := h₂
  have off₁ : w₁.Off () := hk ▸ ⟨custody.off.noff, custody.off.sie⟩
  have idle₁ : w₁.Idle := hk ▸ custody.idle
  have hne' := takePagetable_ne_zero off₁ idle₁ setup.image.ranged setup.tramp howned hempty hrun₂
  change (pageLayer S start).safe (if pagetable = 0 then _ else _) _ w₂ g₂
  rw [if_neg hne']
  refine Layer.safe_mono inv₂ inv₂' (fun found w₃ g₃ _ _ h₃ => ?_)
    (safe_within (Within.bind (.writeProc ..) fun _ => .pure _) inside₂)
  have hrun : Alone (platform S.img S.quiet) () (allocFound S.img p) w (.ok (found, w₃)) := by
    rw [allocFound_eq]
    refine hrun₁.bind ?_
    rw [if_neg hne]
    refine hrun₂.bind ?_
    rw [if_neg hne']
    exact h₃.2
  exact stepped.tail (.allocate custody.off custody.idle hunused hrun)

theorem safe_allocScan (ps : List Slot) (inv : Inv S.img w) (on : On l () w) (bare : l.Bare)
    (stepped : Stepped S start w) :
    (pageLayer S start).safe (allocScan ps) (fun found w' _ => Stepped S start w' ∧
      ∀ p, found = some p → Custody p w' ∧ (w'.kernel.proc p).state = .unused) w g := by
  induction ps generalizing w g with
  | nil => exact ⟨stepped, nofun⟩
  | cons p ps ih =>
    refine Layer.safe_seq inv (fun _ => stepped) (safe_acquire
      (Q := fun _ w' _ => On (l.one (.proc p)) () w' ∧ Stepped S start w') inv on bare.half
      bare.depth (by rw [bare.locks]; simp) stepped fun w' g' _ on' stepped' =>
        ⟨bare.cons (.proc p) ▸ on', stepped'⟩) fun _ w₁ g₁ inv₁ inv₁' h₁ => ?_
    obtain ⟨on₁, stepped₁⟩ := h₁
    refine safe_read (on₁.masked (by simp [Local.one])).1 stepped₁ ?_
    split
    · next hunused =>
      refine ⟨stepped₁, fun q hq => ?_⟩
      obtain rfl := Option.some.inj hq
      exact ⟨on₁.custody inv₁ bare.half bare.depth (by simp [Local.one]) (by simp [Local.one]),
        hunused⟩
    · refine Layer.safe_seq inv₁ inv₁' (safe_release
        (Q := fun _ w' _ => On l () w' ∧ Stepped S start w') inv₁ on₁ bare.half bare.depth
        (by simp [Local.one]) bare.proc stepped₁ fun w' g' _ on' stepped' => ⟨?_, stepped'⟩)
        fun _ w₂ g₂ inv₂ _ h₂ => ih inv₂ h₂.1 h₂.2
      have hnone :
          { l.one (.proc p) with locks := (l.one (.proc p)).locks.erase (.proc p) } = l := by
        obtain ⟨ctx, locks, half, depth, sie, proc⟩ := l
        obtain rfl : locks = [] := bare.locks
        simp [Local.one]
      exact hnone ▸ on'

theorem safe_allocProcess (setup : SetUp S start) (inv : Inv S.img w) (on : On l () w)
    (bare : l.Bare) (stepped : Stepped S start w) :
    (pageLayer S start).safe (allocProcess S.img) (fun _ w' _ => Stepped S start w') w g := by
  refine Layer.safe_seq inv (fun _ => stepped) (safe_allocScan slots inv on bare stepped)
    fun found w₁ g₁ inv₁ _ h₁ => ?_
  cases found with
  | none => exact h₁.1
  | some p =>
    obtain ⟨custody, hunused⟩ := h₁.2 p rfl
    exact safe_allocFound setup inv₁ custody hunused h₁.1

theorem safe_createProcess (setup : SetUp S start) (inv : Inv S.img w) (on : On l () w)
    (bare : l.Bare) (stepped : Stepped S start w) (entrypoint : Word) :
    (pageLayer S start).safe (createProcess S.img entrypoint) (fun _ w' _ => Stepped S start w')
      w g := by
  refine Layer.safe_seq inv (fun _ => stepped) (safe_allocProcess setup inv on bare stepped)
    fun found w₁ g₁ _ _ stepped₁ => ?_
  cases found with
  | none => exact safe_kept (.panic _) stepped₁
  | some p => exact safe_kept (.createWith p entrypoint) stepped₁

theorem safe_userinit (setup : SetUp S start) (inv : Inv S.img w) (on : On l () w)
    (bare : l.Bare) (stepped : Stepped S start w) :
    (pageLayer S start).safe (userinit S.img) (fun _ w' _ => Stepped S start w') w g :=
  Layer.safe_seq inv (fun _ => stepped) (safe_allocProcess setup inv on bare stepped)
    fun found _ _ _ _ stepped₁ => safe_kept (.named found) stepped₁

/-- What `main` does for its entry functions. -/
theorem safe_creates (setup : SetUp S start) (entries : List Word) (inv : Inv S.img w)
    (on : On (.ofCpu S.hart [] true none) () w) (hbooted : w.kernel.booted = true)
    (stepped : Stepped S start w) :
    (pageLayer S start).safe (Program.forEach entries fun entrypoint => do
      let _ ← createProcess S.img entrypoint) (fun _ w' _ => Stepped S start w') w g := by
  have bare : (Local.ofCpu S.hart [] true none : Local Unit).Bare := Local.bare_ofCpu S.hart true
  have hstable : Stable S (.ofCpu S.hart [] true none) fun k => k.booted = true :=
    stable_booted rfl
  induction entries generalizing w g with
  | nil => exact stepped
  | cons entrypoint entries ih =>
    have creates : Triple S (.ofCpu S.hart [] true none) (fun k => k.booted = true)
        (createProcess S.img entrypoint) (fun _ => .ofCpu S.hart [] true none)
        fun _ k => k.booted = true :=
      (Triple.createProcess bare hstable (fun _ _ _ hc => nomatch hc)
        (fun _ _ hb => hb) fun _ _ => List.nil_suffix).mono (fun _ => id) fun _ _ => And.left
    have first := Layer.safe_and (creates () w inv on hbooted)
      (safe_createProcess (g := g) setup inv on bare stepped entrypoint)
    refine Layer.safe_seq inv (fun _ => stepped) (Layer.safe_seq inv (fun _ => stepped)
      (Q := fun _ w' _ => (On (.ofCpu S.hart [] true none) () w' ∧ w'.kernel.booted = true) ∧
        Stepped S start w') first fun _ _ _ _ _ hlast => hlast) fun _ w₁ g₁ inv₁ _ h₁ => ?_
    exact ih inv₁ h₁.1.1 h₁.1.2 h₁.2

theorem safe_main (setup : SetUp S start) (entries : List Word) (inv : Inv S.img w)
    (on : On (.ofCpu S.hart [] true none) () w) (hboot : Unbooted 0 w.kernel)
    (stepped : Stepped S start w) :
    (pageLayer S start).safe (main S.img entries) (fun _ w' _ => Stepped S start w') w g := by
  have bare : (Local.ofCpu S.hart [] true none : Local Unit).Bare := Local.bare_ofCpu S.hart true
  have first := Layer.safe_and ((Triple.userinit bare rfl) () w inv on hboot)
    (safe_userinit (g := g) setup inv on bare stepped)
  refine Layer.safe_seq inv (fun _ => stepped) first fun _ w₁ g₁ inv₁ inv₁' h₁ => ?_
  refine Layer.safe_seq inv₁ inv₁' (safe_creates setup entries inv₁ h₁.1.1 h₁.1.2 h₁.2)
    fun _ w₂ g₂ _ _ stepped₂ => ?_
  exact safe_kept .scheduler stepped₂

/-! ## wait_process -/

theorem safe_waitScan {q : Slot} {sie : Bool} (status : Bool) (ps : List Slot) (havekids : Bool)
    (inv : Inv S.img w) (on : On (.ofProc q [.wait] sie) () w) (stepped : Stepped S start w) :
    (pageLayer S start).safe (waitScan S.img (some q) status ps havekids)
      (fun _ w' _ => Stepped S start w') w g := by
  induction ps generalizing w g havekids with
  | nil => exact stepped
  | cons np ps ih =>
    refine safe_read (on.masked (by simp [Local.ofProc])).1 stepped ?_
    split
    · refine Layer.safe_seq inv (fun _ => stepped) (safe_acquire
        (Q := fun _ w' _ => On (.ofProc q [.proc np, .wait] sie) () w' ∧ Stepped S start w') inv
        on rfl rfl (by simp [Local.ofProc]) stepped fun w' g' _ on' stepped' => ⟨on', stepped'⟩)
        fun _ w₁ g₁ inv₁ inv₁' h₁ => ?_
      obtain ⟨on₁, stepped₁⟩ := h₁
      have hsie := (on₁.masked (by simp [Local.ofProc])).1
      refine safe_read hsie stepped₁ ?_
      split
      · next hzombie =>
        refine safe_read hsie stepped₁ (safe_read hsie stepped₁ (safe_read hsie stepped₁ ?_))
        have custody := on₁.custody (p := np) inv₁ rfl rfl (by simp [Local.ofProc])
          (by simp [Local.ofProc])
        refine Layer.safe_seq inv₁ inv₁' (safe_freeProcess (some q) inv₁ custody hzombie stepped₁)
          fun _ w₂ g₂ _ _ h₂ => ?_
        exact safe_kept (.bind (.release _) fun _ => .bind (.release _) fun _ =>
          .bind (.note fun _ => ⟨rfl, rfl, rfl⟩) fun _ => .pure _) h₂.2
      · refine Layer.safe_seq inv₁ inv₁' (safe_release
          (Q := fun _ w' _ => On (.ofProc q [.wait] sie) () w' ∧ Stepped S start w') inv₁ on₁ rfl
          rfl (by simp [Local.ofProc]) rfl stepped₁ fun w' g' _ on' stepped' =>
            ⟨by simpa [Local.ofProc] using on', stepped'⟩) fun _ w₂ g₂ inv₂ _ h₂ =>
              ih true inv₂ h₂.1 h₂.2
    · exact ih havekids inv on stepped

theorem safe_waitBody {q : Slot} {sie : Bool} (status : Bool) (inv : Inv S.img w)
    (on : On (.ofProc q [.wait] sie) () w) (stepped : Stepped S start w) :
    (pageLayer S start).safe (waitBody S.img (some q) status) (fun _ w' _ => Stepped S start w')
      w g := by
  refine Layer.safe_seq inv (fun _ => stepped) (safe_waitScan status slots false inv on stepped)
    fun found w₁ g₁ _ _ stepped₁ => ?_
  cases found with
  | inl result => exact stepped₁
  | inr havekids => exact safe_kept (.noZombie (some q) status havekids) stepped₁

/-! ## Entry functions -/

theorem safe_action (setup : SetUp S start) (held : List Lock) (action : Action)
    (inv : Inv S.img w) (hbare : held = [] → ∃ l, l.Bare ∧ On l () w)
    (stepped : Stepped S start w) :
    (pageLayer S start).safe (takeAction S.img held action)
      (fun _ w' _ => Stepped S start w') w g := by
  by_cases haction : ∃ entrypoint, action = .createProcess entrypoint
  · obtain ⟨entrypoint, rfl⟩ := haction
    rw [takeAction]
    split
    · next hnil =>
      obtain ⟨l, bare, on⟩ := hbare hnil
      exact Layer.safe_seq inv (fun _ => stepped)
        (safe_createProcess setup inv on bare stepped entrypoint) fun _ _ _ _ _ => id
    · exact stepped
  · exact safe_kept (.takeAction held action fun _ entrypoint heq => haction ⟨entrypoint, heq⟩)
      stepped

theorem safe_client (setup : SetUp S start) (held : List Lock) (inv : Inv S.img w)
    (stepped : Stepped S start w) :
    (pageLayer S start).safe (clientBody S.img held) (fun _ w' _ => Stepped S start w') w g := by
  have acts : ∀ w g, Inv S.img w → (held = [] → ∃ l, l.Bare ∧ On l () w) → Stepped S start w →
      (pageLayer S start).safe (do
        let action ← choose Action
        let held' ← takeAction S.img held action
        .perform (.client held')) (fun _ w' _ => Stepped S start w') w g := by
    intro w g inv hbare stepped w₁ g₁ pause inv₁ inv₁' action
    have stepped₁ := pause_stepped pause stepped
    change (pageLayer S start).safe (takeAction S.img held action >>= fun held' =>
      .perform (.client held')) _ w₁ g₁
    refine Layer.safe_seq inv₁ inv₁' (safe_action setup held action inv₁ (fun hnil => ?_) stepped₁)
      fun held' _ _ _ _ stepped₂ => safe_kept (.perform id) stepped₂
    obtain ⟨l, bare, on⟩ := hbare hnil
    exact ⟨l, bare, pause_on pause inv on⟩
  rw [clientBody]
  split
  · intro w₁ g₁ pause _ _ hpre
    have stepped₁ := pause_stepped pause stepped
    refine ⟨.inr ⟨none, stepped₁⟩, fun _ w₂ g₂ inv₂ _ hpost hpost' =>
      acts w₂ g₂ inv₂ (fun _ => ?_) (hpost' none stepped₁)⟩
    obtain ⟨l, on, hl⟩ := hpre
    obtain ⟨p, sie, rfl, -⟩ := id hl
    exact ⟨_, ⟨rfl, rfl, rfl, rfl⟩, (hpost _ on hl).1⟩
  · next hheld => exact acts w g inv (fun hnil => absurd hnil hheld) stepped

/-! ## All that runs -/

theorem safe_body (setup : SetUp S start) {i : Instr Unit β} {body : Code Unit β}
    (hbody : (platform S.img S.quiet : Platform _ Unit _ _).effect i = .call body)
    (inv : Inv S.img w) (hpre : (logic S).pre i () w) (stepped : Stepped S start w) :
    (pageLayer S start).safe body (fun _ w' _ => Stepped S start w') w g := by
  cases i with
  | client held =>
    cases hbody
    exact safe_client setup held inv stepped
  | waitLoop p status =>
    cases hbody
    obtain ⟨l, on, q, sie, rfl, rfl, -⟩ := hpre
    exact safe_waitBody status inv on stepped
  | _ =>
    refine safe_kept (tame_body (fun _ => ?_) hbody) stepped
    trivial

theorem sound_pages (setup : SetUp S start) : (pageLayer S start).Sound where
  call {β i body w g} hbody inv inv' hpre hpre' := by
    rcases hpre' with hdiverges | ⟨mode₀, before₀⟩
    · cases i with
      | diverge =>
        cases hbody
        intro w₁ g₁ _ _ _ hpre₁
        obtain ⟨l, on, hl⟩ := hpre₁
        exact ⟨.inl trivial, fun _ _ _ _ _ hpost _ => (hpost l on hl).elim⟩
      | _ => exact hdiverges.elim
    · have : Nonempty { mode // Mode.Before S start i w mode } := ⟨⟨mode₀, before₀⟩⟩
      refine Layer.safe_mono inv inv' (fun answer w' g' _ _ after mode before =>
        after ⟨mode, before⟩) (Layer.safe_forall (Q := fun (mode : { mode //
          Mode.Before S start i w mode }) answer w' _ => Mode.After S start i w answer w' mode.1)
          fun mode => ?_)
      obtain ⟨mode, before⟩ := mode
      cases mode with
      | none => exact safe_body setup hbody inv hpre before
      | some depths =>
        obtain ⟨p, n, m⟩ := depths
        exact Layer.safe_mono inv inv' (fun _ _ _ _ _ hlast =>
          ⟨hlast.1, .call hbody hlast.2 (.done ..)⟩)
          (safe_within (Within.body before.1 hbody) before.2)
  handler {w wt g} inv inv' _ htrap := by
    obtain ⟨hsie, -, pc, rfl⟩ := htrap
    have quiet := inv.quiet () hsie
    have stepped : Stepped S start w := inv' fun p =>
      Option.eq_none_iff_forall_ne_some.mpr fun h => quiet.unlocked (.proc p)
    have stepped' : Stepped S start (trapEntry pc () w) :=
      stepped.tail (.other rfl (fun _ => ⟨rfl, rfl⟩) fun _ => .rfl)
    exact ⟨⟨fun _ => stepped', fun _ _ => trivial⟩, safe_kept .kernelvec stepped'⟩
  fresh hfresh inv inv' _ stepped :=
    Layer.safe_mono inv inv' (fun value => value.elim) (safe_kept (tame_fresh hfresh) stepped)

end Pages

/-! ## The kernel's runs -/

section Results

variable {entries : List Word} {m : Config (Instr Unit) Unit (Ctx Unit) (World Unit)}
  {P : Kernel → Prop}

/-- A run of the kernel is a run of page steps, whenever no slot is locked. -/
theorem Reaches.stepped (setup : SetUp S start) (reaches : Reaches S entries start m)
    (hfree : ∀ p, (m.world.lock (.proc p)).locked = none) : Stepped S start m.world := by
  have inv := inv_bootWorld (H := Unit) S.img start
  have first : (pageLayer S start).Holds (boot S.img S.hart entries start) () := by
    refine ⟨fun _ => .refl, ?_, fun _ _ _ _ _ _ _ _ _ _ _ _ _ _ _ _ => trivial⟩
    exact Layer.safe_mono inv (fun _ => .refl) (fun value => value.elim)
      (safe_main setup entries inv (on_bootWorld S.hart) ⟨rfl, rfl, rfl⟩ .refl)
  have hrun : Reachable ((platform S.img S.quiet).restrict (pageLayer S start).May)
      (boot S.img S.hart entries start) m := reaches.restrict fun _ => trivial
  obtain ⟨-, g, holds⟩ := first.reachable verified (sound_pages setup)
    (good_boot S entries start) hrun
  exact holds.inv hfree

/-- In every state of every run of the kernel in which no operation holds a slot's lock. -/
def AtRest (S : Setting Unit) (start : Memory) (P : Kernel → Prop) : Prop :=
  ∀ entries m, Reaches S entries start m → (∀ p, (m.world.lock (.proc p)).locked = none) →
    P m.world.kernel

/-- What page steps keep, the kernel keeps. -/
theorem atRest_of_steps (setup : SetUp S start)
    (hsteps : ∀ w : World Unit, Stepped S start w → P w.kernel) : AtRest S start P :=
  fun _ _ reaches hfree => hsteps _ (reaches.stepped setup hfree)

/-- Three processes are left of four: the fourth has exited and been reaped. -/
structure AfterReap (k : Kernel) : Prop where
  live : ∀ p ∈ [slot₀, slot₁, slot₂], k.Live p
  freed : ∀ p ∈ slots.drop 3, ¬ k.Live p
  born : k.born = 4

theorem reaches_reaped : ∃ (start : SampleMemory) (m : _),
    Reaches sampleSetting [sampleEntry, sampleEntry] start m ∧
      (∀ p, (m.world.lock (.proc p)).locked = none) ∧ AfterReap m.world.kernel := by
  obtain ⟨start, w, k, saved, next, hreach, idles, home, -, -⟩ := rounds false (n := 5) (by decide)
  refine ⟨start, _, hreach, fun p => ?_, ?_⟩
  · change (w.lock (.proc p)).locked = none
    rw [idles.rests.free]
  change AfterReap w.kernel
  rw [idles.kernel]
  exact ⟨home.used, fun p hp hlive => hlive (home.unused p hp), Nat.succ.inj home.born⟩

end Results

end Xv6Kernel.Process
