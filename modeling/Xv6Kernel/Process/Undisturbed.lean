import Xv6Kernel.Foundation.Alone
import Xv6Kernel.Process.Machine

/-!
# Kernel functions on one undisturbed hart

With interrupts off nothing comes between the instructions of a hart, and taking
and giving back a free lock leaves no trace.  So a function that only works on the
kernel's data is described by what it computes from them.
-/

namespace Xv6Kernel.Process

open Xv6Kernel.Foundation Xv6Kernel.Mm

variable {H : Type} [DecidableEq H] {img : Image} {quiet : Bool} {h : H} {α β ι : Type}

/-! ## Worlds -/

namespace World

variable (w : World H) (h : H)

def withKernel (k : Kernel) : World H := { w with kernel := k }

/-- After `push_off`. -/
def pushed : World H :=
  (w.setSie h false).setCpu h fun c =>
    { c with
      intena := if c.noff = 0 then (w.csr h).sstatus.sie else c.intena
      noff := c.noff + 1 }

/-- After `pop_off`. -/
def popped : World H :=
  if (w.cpus h).noff = 1 ∧ (w.cpus h).intena = true then
    (w.setCpu h fun c => { c with noff := c.noff - 1 }).setSie h true
  else w.setCpu h fun c => { c with noff := c.noff - 1 }

/-- After `acquire(lk)` of a free lock. -/
def taken (lk : Lock) : World H := (w.pushed h).setLock lk fun _ => ⟨some h, some h⟩

/-- After `release(lk)`. -/
def dropped (lk : Lock) : World H := (w.setLock lk fun _ => ⟨none, none⟩).popped h

/-- The hart runs with interrupts off on behalf of a lock it holds. -/
structure Off : Prop where
  noff : 1 ≤ (w.cpus h).noff
  sie : (w.csr h).sstatus.sie = false

/-- The locks that are only held within one function are free. -/
def Idle : Prop := ∀ lk ∈ [Lock.print, .pid, .kmem], w.lock lk = ⟨none, none⟩

variable {w h}

theorem setCpu_same {f : Cpu → Cpu} (hf : f (w.cpus h) = w.cpus h) :
    w.setCpu h f = w := by
  simp [setCpu, hf]

/-- `push_off` with no lock held notes the interrupt enable bit. -/
def noted (w : World H) (h : H) : World H :=
  w.setCpu h fun c =>
    { c with intena := if c.noff = 0 then (w.csr h).sstatus.sie else c.intena }

/-- Interrupts are off if a lock is held. -/
def Steady (w : World H) (h : H) : Prop := (w.cpus h).noff = 0 ∨ w.Off h

theorem noted_of_off (off : w.Off h) : w.noted h = w := by
  refine setCpu_same ?_
  have hne : ¬ (w.cpus h).noff = 0 := by
    have hnoff := off.noff
    omega
  rw [if_neg hne]

theorem taken_noted (lk : Lock) : (w.noted h).taken h lk = w.taken h lk := by
  by_cases hnoff : (w.cpus h).noff = 0 <;>
    simp [taken, noted, pushed, setLock, setCpu, setSie, setCsr, hnoff]

/-- Going through `push_off` and `pop_off` leaves only the note. -/
theorem popped_pushed (steady : w.Steady h) : (w.pushed h).popped h = w.noted h := by
  obtain ⟨kernel, lock, cpus, csr, cur⟩ := w
  have hcsr : ∀ sie, (csr h).sstatus.sie = sie → Function.update csr h
      { csr h with sstatus := { (csr h).sstatus with sie } } = csr := by
    rintro sie rfl
    exact Function.update_eq_self ..
  rcases steady with hzero | ⟨hnoff, hsie⟩
  · simp only at hzero
    by_cases hsie : (csr h).sstatus.sie = true
    · have hsame := hcsr true hsie
      simp [popped, pushed, noted, setCpu, setSie, setCsr, hzero, hsie, hsame]
    · rw [Bool.not_eq_true] at hsie
      have hsame := hcsr false hsie
      simp [popped, pushed, noted, setCpu, setSie, setCsr, hzero, hsie, hsame]
  · simp only at hnoff hsie
    have hne : ¬ (cpus h).noff = 0 := by omega
    have hsame := hcsr false hsie
    simp [popped, pushed, noted, setCpu, setSie, setCsr, hne, hsame]

theorem dropped_taken (steady : w.Steady h) {lk : Lock} (hfree : w.lock lk = ⟨none, none⟩) :
    (w.taken h lk).dropped h lk = w.noted h := by
  rw [← popped_pushed steady]
  obtain ⟨kernel, lock, cpus, csr, cur⟩ := w
  simp only at hfree
  have hlock : Function.update lock lk ⟨none, none⟩ = lock := by
    rw [← hfree, Function.update_eq_self]
  simp [dropped, taken, pushed, setLock, setCpu, setSie, setCsr, hlock]

theorem off_taken (steady : w.Steady h) (lk : Lock) : (w.taken h lk).Off h := by
  constructor
  · simp only [taken, pushed, setLock, setCpu, Function.update_self]
    rcases steady with hzero | off
    · change 1 ≤ (w.cpus h).noff + 1
      omega
    · have hnoff := off.noff
      change 1 ≤ (w.cpus h).noff + 1
      omega
  · simp [taken, pushed, setLock, setCpu, setSie, setCsr]

theorem lock_taken_self (lk : Lock) : (w.taken h lk).lock lk = ⟨some h, some h⟩ := by
  simp [taken, setLock]

theorem lock_taken_other {lk lk' : Lock} (hne : lk' ≠ lk) :
    (w.taken h lk).lock lk' = w.lock lk' := by
  simp [taken, setLock, hne, pushed, setCpu, setSie, setCsr]

end World

/-! ## The functions of `spinlock.c` -/

section Spinlock

variable {w : World H}

theorem alone_act (f : H → World H → β × World H) :
    Alone (platform img quiet) h (act f) w (.ok (f h w)) :=
  .perform_atomic rfl

theorem alone_act_eq {f : H → World H → β × World H} {result : β × World H}
    (heq : f h w = result) : Alone (platform img quiet) h (act f) w (.ok result) :=
  heq ▸ alone_act f

theorem alone_act_bind {f : H → World H → β × World H} {rest : β → Code H α}
    {r : Except String (α × World H)}
    (hrest : Alone (platform img quiet) h (rest (f h w).1) (f h w).2 r) :
    Alone (platform img quiet) h (act f >>= rest) w r :=
  .atomic rfl hrest

theorem alone_panic (message : String) :
    Alone (platform img quiet) h (panic message : Code H α) w (.error message) :=
  .halt rfl

theorem alone_pushOff :
    Alone (platform img quiet) h (pushOff : Code H Unit) w (.ok ((), w.pushed h)) := by
  refine alone_act_bind (alone_act_bind (alone_act_bind ?_))
  by_cases hnoff : (w.cpus h).noff = 0
  · have hnoff' : ((w.setSie h false).cpus h).noff = 0 := hnoff
    rw [if_pos hnoff']
    refine alone_act_bind (alone_act_eq ?_)
    simp [World.pushed, World.setCpu, World.setSie, World.setCsr, hnoff]
  · have hnoff' : ¬ ((w.setSie h false).cpus h).noff = 0 := hnoff
    rw [if_neg hnoff']
    refine alone_act_eq ?_
    simp [World.pushed, World.setCpu, World.setSie, World.setCsr, hnoff]

theorem alone_popOff (off : w.Off h) :
    Alone (platform img quiet) h (popOff : Code H Unit) w (.ok ((), w.popped h)) := by
  have hsie : ¬ (w.csr h).sstatus.sie = true := by simp [off.sie]
  have hpos : ¬ (w.cpus h).noff < 1 := by
    have hnoff := off.noff
    omega
  refine alone_act_bind ?_
  rw [if_neg hsie]
  refine alone_act_bind ?_
  rw [if_neg hpos]
  refine alone_act_bind (alone_act_bind ?_)
  by_cases hlast : (w.cpus h).noff = 1
  · have hzero : ((w.setCpu h fun c => { c with noff := c.noff - 1 }).cpus h).noff = 0 := by
      simp [World.setCpu, hlast]
    rw [if_pos hzero]
    refine alone_act_bind ?_
    by_cases hintena : (w.cpus h).intena = true
    · have hon : ((w.setCpu h fun c => { c with noff := c.noff - 1 }).cpus h).intena =
          true := by
        simp [World.setCpu, hintena]
      rw [if_pos hon, World.popped, if_pos ⟨hlast, hintena⟩]
      exact alone_act _
    · have hon : ¬ ((w.setCpu h fun c => { c with noff := c.noff - 1 }).cpus h).intena =
          true := by
        simp [World.setCpu, hintena]
      rw [if_neg hon, World.popped, if_neg fun both => hintena both.2]
      exact .done ..
  · have hzero : ¬ ((w.setCpu h fun c => { c with noff := c.noff - 1 }).cpus h).noff = 0 := by
      simp [World.setCpu]
      omega
    rw [if_neg hzero, World.popped, if_neg fun both => hlast both.1]
    exact .done ..

theorem alone_holding (lk : Lock) :
    Alone (platform img quiet) h (holding lk) w
      (.ok (decide ((w.lock lk).locked.isSome ∧ (w.lock lk).cpu = some h), w)) := by
  refine alone_act_bind ?_
  by_cases hlocked : (w.lock lk).locked.isSome = true
  · rw [if_pos hlocked]
    refine alone_act_bind (alone_act_bind ?_)
    convert Alone.done _ _ using 3
    simp [hlocked]
  · rw [if_neg hlocked]
    convert Alone.done _ _ using 3
    simp [hlocked]

theorem alone_acquire {lk : Lock} (hfree : w.lock lk = ⟨none, none⟩) :
    Alone (platform img quiet) h (acquire lk) w (.ok ((), w.taken h lk)) := by
  have hpushed : (w.pushed h).lock lk = ⟨none, none⟩ := hfree
  refine .perform_call rfl (alone_pushOff.bind ((alone_holding lk).bind ?_))
  rw [hpushed]
  simp only [Option.isSome_none, Bool.false_eq_true, false_and, decide_false, if_false]
  have hspin : Alone (platform img quiet) h (spinBody lk) (w.pushed h) (.ok ((),
      (w.pushed h).setLock lk fun l => { l with locked := some h })) := by
    have hset : Alone (platform img quiet) h (testAndSet lk) (w.pushed h) (.ok (false,
        (w.pushed h).setLock lk fun l => { l with locked := some h })) := by
      refine alone_act_eq ?_
      simp only [hpushed]
    exact hset.bind (.done ..)
  refine (Alone.perform_call rfl hspin).bind (alone_act_eq ?_)
  simp [World.taken, World.setLock]

theorem alone_release {lk : Lock} (off : w.Off h) (hheld : w.lock lk = ⟨some h, some h⟩) :
    Alone (platform img quiet) h (release lk) w (.ok ((), w.dropped h lk)) := by
  refine .perform_call rfl ((alone_holding lk).bind ?_)
  rw [hheld]
  simp only [Option.isSome_some, true_and, decide_true, Bool.not_true, Bool.false_eq_true,
    if_false]
  refine alone_act_bind (alone_act_bind ?_)
  have hoff : (w.setLock lk fun _ => ⟨none, none⟩).Off h := ⟨off.noff, off.sie⟩
  have hsame : (w.setLock lk fun l => { l with cpu := none }).setLock lk
      (fun l => { l with locked := none }) = w.setLock lk fun _ => ⟨none, none⟩ := by
    simp [World.setLock]
  change Alone _ h popOff ((w.setLock lk fun l => { l with cpu := none }).setLock lk
    fun l => { l with locked := none }) _
  rw [hsame]
  exact alone_popOff hoff

theorem alone_myproc (steady : w.Steady h) :
    Alone (platform img quiet) h (myproc : Code H (Option Slot)) w
      (.ok ((w.cpus h).proc, w.noted h)) := by
  have hoff : (w.pushed h).Off h := by
    constructor
    · rcases steady with hzero | off
      · simp [World.pushed, World.setCpu, World.setSie, World.setCsr, hzero]
      · have hnoff := off.noff
        simp [World.pushed, World.setCpu, World.setSie, World.setCsr]
        omega
    · simp [World.pushed, World.setCpu, World.setSie, World.setCsr]
  refine .perform_call rfl (alone_pushOff.bind (alone_act_bind ((alone_popOff hoff).bind ?_)))
  rw [World.popped_pushed steady]
  convert Alone.done _ _ using 3
  simp [World.pushed, World.setCpu, World.setSie, World.setCsr]

end Spinlock

/-! ## What a function computes from the kernel's data -/

/-- With interrupts off and the inner locks free, the program turns `k` into `k'`
and touches nothing else. -/
def Computes (img : Image) (quiet : Bool) (h : H) (program : Code H α) (k : Kernel)
    (value : α) (k' : Kernel) : Prop :=
  ∀ w : World H, w.Off h → w.Idle → w.kernel = k →
    Alone (platform img quiet) h program w (.ok (value, w.withKernel k'))

def Panics (img : Image) (quiet : Bool) (h : H) (program : Code H α) (k : Kernel)
    (message : String) : Prop :=
  ∀ w : World H, w.Off h → w.Idle → w.kernel = k →
    Alone (platform img quiet) h program w (.error message)

section Computes

variable {k k' k'' : Kernel} {program : Code H α} {rest : α → Code H β} {value : α}
  {answer : β} {message : String}

theorem Computes.bind (hprogram : Computes img quiet h program k value k')
    (hrest : Computes img quiet h (rest value) k' answer k'') :
    Computes img quiet h (program >>= rest) k answer k'' := by
  intro w off idle hk
  have off' : (w.withKernel k').Off h := ⟨off.noff, off.sie⟩
  exact (hprogram w off idle hk).bind (hrest (w.withKernel k') off' idle rfl)

theorem Computes.bind_panics (hprogram : Computes img quiet h program k value k')
    (hrest : Panics img quiet h (rest value) k' message) :
    Panics img quiet h (program >>= rest) k message := by
  intro w off idle hk
  have off' : (w.withKernel k').Off h := ⟨off.noff, off.sie⟩
  exact (hprogram w off idle hk).bind (hrest (w.withKernel k') off' idle rfl)

theorem Panics.bind (hprogram : Panics img quiet h program k message) :
    Panics img quiet h (program >>= rest) k message :=
  fun w off idle hk => (hprogram w off idle hk).bind_halts

theorem computes_done (value : α) (k : Kernel) :
    Computes img quiet h (.done value) k value k := by
  rintro w - - rfl
  exact .done ..

theorem computes_read (f : Kernel → α) (k : Kernel) :
    Computes img quiet h (read f) k (f k) k := by
  rintro w - - rfl
  exact alone_act _

theorem computes_readProc (p : Slot) (f : Proc → α) (k : Kernel) :
    Computes img quiet h (readProc p f) k (f (k.proc p)) k :=
  computes_read _ _

theorem computes_write (f : Kernel → Kernel) (k : Kernel) :
    Computes img quiet h (write f) k () (f k) := by
  rintro w - - rfl
  exact alone_act _

theorem computes_writeProc (p : Slot) (f : Proc → Proc) (k : Kernel) :
    Computes img quiet h (writeProc p f) k () (k.setProc p f) :=
  computes_write _ _

theorem computes_locked {lk : Lock} (hlk : lk ∈ [Lock.print, .pid, .kmem])
    {body : Code H α} (hbody : ∀ w : World H, w.kernel = k →
      Alone (platform img quiet) h body w (.ok (value, w.withKernel k'))) :
    Computes img quiet h (do
      acquire lk
      let answer ← body
      release lk
      return answer) k value k' := by
  intro w off idle hk
  have hfree := idle lk hlk
  have steady : w.Steady h := .inr off
  have taken := World.off_taken steady lk
  have off' : ((w.taken h lk).withKernel k').Off h := ⟨taken.noff, taken.sie⟩
  have off₁ : (w.withKernel k').Off h := ⟨off.noff, off.sie⟩
  have hheld : ((w.taken h lk).withKernel k').lock lk = ⟨some h, some h⟩ :=
    World.lock_taken_self lk
  refine (alone_acquire hfree).bind ((hbody (w.taken h lk) hk).bind
    ((alone_release off' hheld).bind ?_))
  have hback : ((w.taken h lk).withKernel k').dropped h lk = w.withKernel k' := by
    have hdropped : ((w.withKernel k').taken h lk).dropped h lk =
        (w.withKernel k').noted h := World.dropped_taken (.inr off₁) hfree
    rw [World.noted_of_off off₁] at hdropped
    exact hdropped
  rw [hback]
  exact .done ..

/-- The bytes of a call that prints. -/
def Kernel.sends (call : Nat) (cs : List Char) (k : Kernel) : Kernel :=
  { k with
    console := cs.reverse ++ k.console
    senders := List.replicate cs.length call ++ k.senders }

theorem Kernel.sends_cons (call : Nat) (c : Char) (cs : List Char) (k : Kernel) :
    k.sends call (c :: cs) =
      { k with console := c :: k.console, senders := call :: k.senders }.sends call cs := by
  simp [Kernel.sends, List.replicate_succ', -List.replicate_append_replicate]

/-- The console after `printf`. -/
def Kernel.print (text : String) (k : Kernel) : Kernel :=
  { k with calls := k.calls + 1 }.sends k.calls text.toList

theorem alone_puts {w : World H} (call : Nat) (cs : List Char) :
    Alone (platform img quiet) h (Program.forEach cs (consputc call)) w
      (.ok ((), w.withKernel (w.kernel.sends call cs))) := by
  induction cs generalizing w with
  | nil => exact .done ..
  | cons c cs ih =>
      rw [Kernel.sends_cons]
      have hfirst : Alone (platform img quiet) h (consputc call c) w
          (.ok ((), w.withKernel
            { w.kernel with console := c :: w.kernel.console, senders := call :: w.kernel.senders })) :=
        alone_act _
      exact hfirst.bind ih

theorem computes_printf (text : String) (k : Kernel) :
    Computes img quiet h (printf text) k () (k.print text) := by
  have hbegin : Computes img quiet h beginCall k k.calls { k with calls := k.calls + 1 } := by
    rintro w - - rfl
    exact alone_act _
  refine hbegin.bind (computes_locked (by simp) fun w hk => ?_)
  rw [Kernel.print, ← hk]
  exact alone_puts _ _

/-- One access to memory, with or without `kmem.lock` around it. -/
theorem computes_memory (f : Memory → α × Memory) (k : Kernel) :
    Computes img quiet h (act fun _ w => ((f w.kernel.memory).1,
        { w with kernel := { w.kernel with memory := (f w.kernel.memory).2 } }) : Code H α)
      k (f k.memory).1 { k with memory := (f k.memory).2 } := by
  rintro w - - rfl
  exact alone_act _

theorem computes_critical (f : Memory → α × Memory) (k : Kernel) :
    Computes img quiet h (do
      acquire .kmem
      let answer ← act fun _ w => ((f w.kernel.memory).1,
        { w with kernel := { w.kernel with memory := (f w.kernel.memory).2 } })
      release .kmem
      return answer) k (f k.memory).1 { k with memory := (f k.memory).2 } := by
  refine computes_locked (by simp) fun w hk => ?_
  subst hk
  exact alone_act _

omit [DecidableEq H] in
theorem liftMem_critical (f : Memory → α × Memory) (next : α → MemM β) :
    (liftMem (.step (.critical f) next) : Code H β) = (do
      acquire .kmem
      let answer ← act fun _ w => ((f w.kernel.memory).1,
        { w with kernel := { w.kernel with memory := (f w.kernel.memory).2 } })
      release .kmem
      return answer) >>= fun answer => liftMem (next answer) := by
  simp [liftMem]

theorem computes_liftMem {program : MemM α} {m : Memory}
    (hexec : exec program k.memory = .ok (value, m)) :
    Computes img quiet h (liftMem program : Code H α) k value { k with memory := m } := by
  induction program generalizing k with
  | done answer =>
      cases hexec
      exact computes_done _ _
  | step instruction next ih =>
      cases instruction with
      | touch f =>
          have hrest := ih (f k.memory).1 (k := { k with memory := (f k.memory).2 }) hexec
          exact Computes.bind (computes_memory f k) hrest
      | critical f =>
          have hrest := ih (f k.memory).1 (k := { k with memory := (f k.memory).2 }) hexec
          rw [liftMem_critical]
          exact Computes.bind (computes_critical f k) hrest
      | panic message => cases hexec
      | diverge => cases hexec

theorem panics_liftMem {program : MemM α}
    (hexec : exec program k.memory = .error (.panic message)) :
    Panics img quiet h (liftMem program : Code H α) k message := by
  induction program generalizing k with
  | done answer => cases hexec
  | step instruction next ih =>
      cases instruction with
      | touch f =>
          have hrest := ih (f k.memory).1 (k := { k with memory := (f k.memory).2 }) hexec
          exact Computes.bind_panics (computes_memory f k) hrest
      | critical f =>
          have hrest := ih (f k.memory).1 (k := { k with memory := (f k.memory).2 }) hexec
          rw [liftMem_critical]
          exact Computes.bind_panics (computes_critical f k) hrest
      | panic text =>
          cases hexec
          exact fun w _ _ _ => alone_panic _
      | diverge => cases hexec

end Computes


end Xv6Kernel.Process
