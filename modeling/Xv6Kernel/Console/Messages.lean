import Xv6Kernel.Console.Printing
import Xv6Kernel.Process.Interruption
import Xv6Kernel.Process.Tame

/-!
# Messages on the console

The bytes of one call of `printf` or `uart_puts` come out together in every run in which no
interrupt is taken in the middle of a `uart_puts`, and one that is taken there tears the
first line of the kernel.
-/

namespace Xv6Kernel.Console

open Xv6Kernel.Foundation Xv6Kernel.Mm Xv6Kernel.Process

variable {α : Type}

/-! ## Whole messages -/

/-- Between two bytes of a call there are only bytes of that call. -/
def Together (senders : List Nat) : Prop :=
  ∀ i j k n : Nat, i < j → j < k → senders[i]? = some n → senders[k]? = some n →
    senders[j]? = some n

/-- Every byte on the console belongs to a call that has begun, and no call is torn. -/
structure WholeMessages (w : World Unit) : Prop where
  length : w.kernel.senders.length = w.kernel.console.length
  begun : ∀ n ∈ w.kernel.senders, n < w.kernel.calls
  together : Together w.kernel.senders

/-- One more byte, of a call that has sent none or that has sent the last one. -/
theorem Together.cons {senders : List Nat} {n : Nat} (together : Together senders)
    (hlast : n ∈ senders → senders.head? = some n) : Together (n :: senders) := by
  intro i j k m hij hjk hi hk
  obtain ⟨k, rfl⟩ := Nat.exists_eq_succ_of_ne_zero (Nat.ne_zero_of_lt hjk)
  obtain ⟨j, rfl⟩ := Nat.exists_eq_succ_of_ne_zero (Nat.ne_zero_of_lt hij)
  simp only [Nat.succ_eq_add_one, List.getElem?_cons_succ] at hk ⊢
  cases i with
  | succ i =>
    simp only [List.getElem?_cons_succ] at hi
    exact together i j k m (by omega) (by omega) hi hk
  | zero =>
    obtain rfl : n = m := by simpa using hi
    have hhead := hlast (List.mem_of_getElem? hk)
    rw [List.head?_eq_getElem?] at hhead
    cases j with
    | zero => exact hhead
    | succ j => exact together 0 (j + 1) k n (by omega) (by omega) hhead hk

section Whole

variable {w : World Unit} {k' : Kernel} {n : Nat} {c : Char}

theorem WholeMessages.silent (whole : WholeMessages w) {w' : World Unit}
    (houtput : w'.kernel.output = w.kernel.output) : WholeMessages w' := by
  simp only [Kernel.output, Prod.mk.injEq] at houtput
  obtain ⟨hconsole, hcalls, hsenders, -⟩ := houtput
  exact ⟨by rw [hsenders, hconsole, whole.length], by rw [hsenders, hcalls]; exact whole.begun,
    by rw [hsenders]; exact whole.together⟩

/-- One more byte of a call. -/
structure OneMore (n : Nat) (c : Char) (k k' : Kernel) : Prop where
  console : k'.console = c :: k.console
  senders : k'.senders = n :: k.senders
  calls : k'.calls = k.calls

theorem WholeMessages.byte (whole : WholeMessages w) (byte : OneMore n c w.kernel k')
    (hn : n < w.kernel.calls) (hlast : n ∈ w.kernel.senders → w.kernel.senders.head? = some n) :
    WholeMessages (w.withKernel k') where
  length := by simp [World.withKernel, byte.senders, byte.console, whole.length]
  begun m hm := by
    change m ∈ k'.senders at hm
    change m < k'.calls
    rw [byte.senders] at hm
    rw [byte.calls]
    rcases List.mem_cons.mp hm with rfl | hold
    · exact hn
    · exact whole.begun m hold
  together := by
    change Together k'.senders
    rw [byte.senders]
    exact whole.together.cons hlast

end Whole

/-! ## The calls of a context -/

/-- While the context `c` stands still, the calls that it has begun send nothing; `caller`
is the history of who began which call. -/
structure Spares (c : Ctx Unit) (w : World Unit) (caller : Nat → Ctx Unit) (w' : World Unit)
    (caller' : Nat → Ctx Unit) : Prop where
  calls : w.kernel.calls ≤ w'.kernel.calls
  kept : ∀ n < w.kernel.calls, caller' n = caller n
  unsent : ∀ n < w.kernel.calls, caller n = c → n ∈ w'.kernel.senders → n ∈ w.kernel.senders

/-- What a program does to the calls that its context began before. -/
structure OwnCalls (w : World Unit) (caller : Nat → Ctx Unit) (w' : World Unit)
    (caller' : Nat → Ctx Unit) : Prop where
  cur : w'.cur () = w.cur ()
  spares : Spares (w.cur ()) w caller w' caller'

section Calls

variable {c : Ctx Unit} {w w' w'' : World Unit} {caller caller' caller'' : Nat → Ctx Unit}

theorem Spares.trans (h : Spares c w caller w' caller') (h' : Spares c w' caller' w'' caller'') :
    Spares c w caller w'' caller'' where
  calls := h.calls.trans h'.calls
  kept n hn := (h'.kept n (hn.trans_le h.calls)).trans (h.kept n hn)
  unsent n hn hc hmem :=
    h.unsent n hn hc (h'.unsent n (hn.trans_le h.calls) ((h.kept n hn).trans hc) hmem)

theorem Spares.silent (houtput : w'.kernel.output = w.kernel.output) :
    Spares c w caller w' caller := by
  simp only [Kernel.output, Prod.mk.injEq] at houtput
  obtain ⟨-, hcalls, hsenders, -⟩ := houtput
  exact ⟨hcalls.ge, fun _ _ => rfl, fun n _ _ hmem => hsenders ▸ hmem⟩

theorem OwnCalls.refl : OwnCalls w caller w caller := ⟨rfl, .silent rfl⟩

theorem OwnCalls.trans (h : OwnCalls w caller w' caller') (h' : OwnCalls w' caller' w'' caller'') :
    OwnCalls w caller w'' caller'' :=
  ⟨h'.cur.trans h.cur, h.spares.trans (h.cur ▸ h'.spares)⟩

end Calls

/-- Every state has whole messages, if no trap is taken in the middle of a `uart_puts`. -/
def wholeLayer (img : Image) : Layer (logic (printSetting img)) (Nat → Ctx Unit) where
  next w w' caller :=
    if w'.kernel.calls = w.kernel.calls then caller
      else Function.update caller w.kernel.calls (w.cur ())
  Inv w _ := WholeMessages w
  May := MayInterrupt true
  Keep := Spares
  Resume _ _ _ := True
  Preempt := OwnCalls
  pre _ _ _ := True
  post _ w caller _ w' caller' := OwnCalls w caller w' caller'
  next_self _ _ := if_pos rfl
  keep_trans := Spares.trans

section Safe

variable {img : Image} {w w' w₀ : World Unit} {caller caller' caller₀ : Nat → Ctx Unit}
  {Q : α → World Unit → (Nat → Ctx Unit) → Prop} {n : Nat}

theorem next_same (hcalls : w'.kernel.calls = w.kernel.calls) :
    (wholeLayer img).next w w' caller = caller := if_pos hcalls

theorem pause_own (pause : (wholeLayer img).Pause w caller w' caller') :
    OwnCalls w caller w' caller' := by
  induction pause with
  | refl => exact .refl
  | trap _ _ _ _ own _ _ ih => exact ih.trans own

theorem keeps_silent (whole : WholeMessages w) (houtput : w'.kernel.output = w.kernel.output) :
    (wholeLayer img).Keeps w caller w' caller :=
  ⟨whole.silent houtput, fun _ _ => .silent houtput⟩

theorem resume_cur {c : Ctx Unit} (resume : Resume (printSetting img) c () w) :
    w.cur () = c := by
  cases c with
  | proc p =>
    obtain ⟨⟨sie, on⟩, -⟩ := resume
    exact on.ctx
  | cpu h =>
    obtain ⟨p, sie, on, -⟩ := resume
    exact on.ctx

/-! ## printf -/

/-- A call that the running context has begun and that has sent nothing. -/
structure Begun (n : Nat) (w : World Unit) (caller : Nat → Ctx Unit) : Prop where
  mine : caller n = w.cur ()
  lt : n < w.kernel.calls
  unsent : n ∉ w.kernel.senders

theorem Begun.own (begun : Begun n w caller) (own : OwnCalls w caller w' caller') :
    Begun n w' caller' where
  mine := by rw [own.spares.kept n begun.lt, begun.mine, own.cur]
  lt := begun.lt.trans_le own.spares.calls
  unsent hmem := begun.unsent (own.spares.unsent n begun.lt begun.mine hmem)

theorem safe_begin {next : Nat → Code Unit α} (own : OwnCalls w₀ caller₀ w caller)
    (hnext : ∀ n w' caller', Inv img w' → WholeMessages w' → OwnCalls w₀ caller₀ w' caller' →
      Begun n w' caller' → w₀.kernel.calls ≤ n →
        (wholeLayer img).safe (next n) Q w' caller') :
    (wholeLayer img).safe (beginCall >>= next) Q w caller := by
  intro w₁ caller₁ pause inv₁ whole₁ guarantee
  have own₁ := own.trans (pause_own pause)
  let w₂ := w₁.withKernel { w₁.kernel with calls := w₁.kernel.calls + 1 }
  let caller₂ := Function.update caller₁ w₁.kernel.calls (w₁.cur ())
  have hne : w₂.kernel.calls ≠ w₁.kernel.calls := Nat.succ_ne_self _
  have hsecond : (wholeLayer img).next w₁ w₂ caller₁ = caller₂ := if_neg hne
  change (wholeLayer img).Keeps w₁ caller₁ w₂ ((wholeLayer img).next w₁ w₂ caller₁) ∧
    (wholeLayer img).safe (next w₁.kernel.calls) Q w₂ ((wholeLayer img).next w₁ w₂ caller₁)
  rw [hsecond]
  have spares : ∀ c, Spares c w₁ caller₁ w₂ caller₂ := fun c =>
    ⟨Nat.le_succ _, fun m hm => Function.update_of_ne hm.ne _ _, fun _ _ _ => id⟩
  have whole₂ : WholeMessages w₂ :=
    ⟨whole₁.length, fun m hm => Nat.lt_succ_of_lt (whole₁.begun m hm), whole₁.together⟩
  have hunsent : w₁.kernel.calls ∉ w₁.kernel.senders := fun hmem =>
    Nat.lt_irrefl _ (whole₁.begun _ hmem)
  exact ⟨⟨whole₂, fun c _ => spares c⟩, hnext _ _ _ guarantee.inv whole₂
    (own₁.trans ⟨rfl, spares _⟩)
    ⟨Function.update_self .., Nat.lt_succ_self _, hunsent⟩ own₁.spares.calls⟩

/-- A byte of the running context's own call. -/
theorem keeps_byte {k' : Kernel} {c : Char} (whole : WholeMessages w)
    (byte : OneMore n c w.kernel k') (hcaller : caller n = w.cur ()) (hn : n < w.kernel.calls)
    (hlast : n ∈ w.kernel.senders → w.kernel.senders.head? = some n) :
    (wholeLayer img).Keeps w caller (w.withKernel k') caller := by
  refine ⟨whole.byte byte hn hlast, fun c' hne => ⟨byte.calls.ge, fun _ _ => rfl, ?_⟩⟩
  intro m _ hm hmem
  change m ∈ k'.senders at hmem
  rw [byte.senders] at hmem
  rcases List.mem_cons.mp hmem with rfl | hold
  · exact absurd (hcaller.symm.trans hm) hne
  · exact hold

/-- It does not count as one of the calls begun before. -/
theorem OwnCalls.byte {k' : Kernel} {c : Char} (own : OwnCalls w₀ caller₀ w caller)
    (byte : OneMore n c w.kernel k') (hnew : w₀.kernel.calls ≤ n) :
    OwnCalls w₀ caller₀ (w.withKernel k') caller := by
  refine ⟨own.cur, own.spares.calls.trans byte.calls.ge, own.spares.kept, ?_⟩
  intro m hm hcaller hmem
  change m ∈ k'.senders at hmem
  rw [byte.senders] at hmem
  rcases List.mem_cons.mp hmem with rfl | hold
  · exact absurd hm (Nat.not_lt.mpr hnew)
  · exact own.spares.unsent m hm hcaller hold

theorem does_byte {f : Kernel → Kernel} {c : Char} {next : Unit → Code Unit α}
    (byte : OneMore n c w.kernel (f w.kernel)) (whole : WholeMessages w) (hcaller : caller n = w.cur ())
    (hn : n < w.kernel.calls)
    (hlast : n ∈ w.kernel.senders → w.kernel.senders.head? = some n)
    (hnext : Inv img (w.withKernel (f w.kernel)) → WholeMessages (w.withKernel (f w.kernel)) →
      (wholeLayer img).safe (next ()) Q (w.withKernel (f w.kernel)) caller) :
    (wholeLayer img).Does (.act fun _ w => ((), { w with kernel := f w.kernel }))
      (fun answer => (wholeLayer img).safe (next answer) Q) w caller := by
  intro guarantee
  have hsame : (wholeLayer img).next w (w.withKernel (f w.kernel)) caller = caller :=
    next_same byte.calls
  have keeps : (wholeLayer img).Keeps w caller (w.withKernel (f w.kernel)) caller :=
    keeps_byte whole byte hcaller hn hlast
  change (wholeLayer img).Keeps w caller (w.withKernel (f w.kernel))
      ((wholeLayer img).next w (w.withKernel (f w.kernel)) caller) ∧
    (wholeLayer img).safe (next ()) Q (w.withKernel (f w.kernel))
      ((wholeLayer img).next w (w.withKernel (f w.kernel)) caller)
  rw [hsame]
  exact ⟨keeps, hnext guarantee.inv keeps.inv⟩

def Masked (w : World Unit) : Prop := (w.csr ()).sstatus.sie = false

theorem pause_masked (hmasked : Masked w) (pause : (wholeLayer img).Pause w caller w' caller') :
    w' = w ∧ caller' = caller := by
  refine pause.still fun _ wt htrap => ?_
  obtain ⟨hsie, -⟩ := htrap
  exact nomatch hmasked.symm.trans hsie

/-- With interrupts off the bytes come one after the other. -/
theorem safe_bytes (cs : List Char) {rest : Unit → Code Unit α} (inv : Inv img w)
    (whole : WholeMessages w) (hmasked : Masked w) (own : OwnCalls w₀ caller₀ w caller)
    (hnew : w₀.kernel.calls ≤ n) (hcaller : caller n = w.cur ()) (hn : n < w.kernel.calls)
    (hlast : n ∈ w.kernel.senders → w.kernel.senders.head? = some n)
    (hrest : ∀ w' caller', Inv img w' → WholeMessages w' → OwnCalls w₀ caller₀ w' caller' →
      (wholeLayer img).safe (rest ()) Q w' caller') :
    (wholeLayer img).safe (Program.forEach cs (Process.consputc n) >>= rest) Q w caller := by
  induction cs generalizing w with
  | nil => exact hrest w caller inv whole own
  | cons c cs ih =>
    intro w₁ caller₁ pause _ _
    obtain ⟨rfl, rfl⟩ := pause_masked hmasked pause
    let f : Kernel → Kernel := fun k =>
      { k with console := c :: k.console, senders := n :: k.senders }
    have byte : OneMore n c w₁.kernel (f w₁.kernel) := ⟨rfl, rfl, rfl⟩
    exact does_byte byte whole hcaller hn hlast fun inv' whole' =>
      ih inv' whole' hmasked (own.byte byte hnew) hcaller hn fun _ => rfl

theorem safe_printf (text : String) {rest : Unit → Code Unit α}
    (own : OwnCalls w₀ caller₀ w caller)
    (hrest : ∀ w' caller', Inv img w' → WholeMessages w' → OwnCalls w₀ caller₀ w' caller' →
      (wholeLayer img).safe (rest ()) Q w' caller') :
    (wholeLayer img).safe (Process.printf text >>= rest) Q w caller := by
  simp only [Process.printf, bind_assoc]
  refine safe_begin own fun n w₁ caller₁ _ _ own₁ begun₁ hnew => ?_
  intro w₂ caller₂ pause₂ _ _ hpre
  refine ⟨trivial, fun _ w₃ caller₃ inv₃ whole₃ hpost own₃ => ?_⟩
  have own₂ := pause_own pause₂
  have begun₃ := (begun₁.own own₂).own own₃
  -- `acquire` comes back with interrupts off
  have hmasked : Masked w₃ := by
    obtain ⟨l, on, hl⟩ := hpre
    exact ((hpost l on hl).1.masked (by simp)).1
  refine safe_bytes text.toList inv₃ whole₃ hmasked ((own₁.trans own₂).trans own₃) hnew
    begun₃.mine begun₃.lt (fun hmem => absurd hmem begun₃.unsent) ?_
  intro w₄ caller₄ _ _ own₄ w₅ caller₅ pause₅ _ _ _
  exact ⟨trivial, fun _ w₆ caller₆ inv₆ whole₆ _ own₆ =>
    hrest w₆ caller₆ inv₆ whole₆ ((own₄.trans (pause_own pause₅)).trans own₆)⟩

/-! ## The kernel's code -/

theorem safe_tame {code : Code Unit α} (tame : Tame false code) (inv : Inv img w)
    (whole : WholeMessages w) (own : OwnCalls w₀ caller₀ w caller) :
    (wholeLayer img).safe code (fun _ => OwnCalls w₀ caller₀) w caller := by
  induction tame generalizing w caller with
  | done value => exact own
  | access hf _ ih =>
    intro w₁ caller₁ pause _ whole₁ guarantee
    have houtput := (hf () w₁).output
    have hcalls := congrArg (fun output => output.2.1) houtput
    rw [next_same hcalls]
    have hcur : _ = w₁.cur () := congrFun guarantee.current ()
    exact ⟨keeps_silent whole₁ houtput, ih _ guarantee.inv (whole₁.silent houtput)
      ((own.trans (pause_own pause)).trans ⟨hcur, .silent houtput⟩)⟩
  | @other _ i next hi _ ih =>
    cases i with
    | act f => exact absurd trivial hi
    | choose =>
      intro w₁ caller₁ pause inv₁ whole₁ answer
      exact ih answer inv₁ whole₁ (own.trans (pause_own pause))
    | panic message => exact fun _ _ _ _ _ => trivial
    | swtch old new regs =>
      intro w₁ caller₁ pause _ whole₁ switches
      have houtput : (transfer old new regs () w₁).kernel.output = w₁.kernel.output := by
        cases old <;> rfl
      have hcalls := congrArg (fun output => output.2.1) houtput
      rw [next_same hcalls]
      refine ⟨keeps_silent whole₁ houtput, trivial, fun w₂ caller₂ inv₂ whole₂ hresume _ _ spares _ =>
        ih () inv₂ whole₂ ((own.trans (pause_own pause)).trans ?_)⟩
      have hold : w₁.cur () = old := switches.from_old
      refine ⟨(resume_cur hresume).trans hold.symm, ?_⟩
      rw [hold]
      exact (Spares.silent houtput).trans spares
    | _ =>
      intro w₁ caller₁ pause _ _ _
      exact ⟨trivial, fun answer w₂ caller₂ inv₂ whole₂ _ own₂ =>
        ih answer inv₂ whole₂ ((own.trans (pause_own pause)).trans own₂)⟩
  | print text _ ih =>
    exact safe_printf text own fun w' caller' inv' whole' own' => ih () inv' whole' own'

/-! ## uart_puts -/

/-- No trap comes while bytes are left to send. -/
theorem safe_uartBytes (cs : List Char) (inv : Inv img w) (whole : WholeMessages w)
    (own : OwnCalls w₀ caller₀ w caller) (hnew : w₀.kernel.calls ≤ n) (hcaller : caller n = w.cur ())
    (hn : n < w.kernel.calls) (hlast : cs ≠ [] → n ∈ w.kernel.senders →
      w.kernel.sending = true ∧ w.kernel.senders.head? = some n) :
    (wholeLayer img).safe (uartBytes n cs) (fun _ => OwnCalls w₀ caller₀) w caller := by
  induction cs generalizing w caller with
  | nil => exact own
  | cons c cs ih =>
    intro w₁ caller₁ pause _ whole₁
    have own₁ := pause_own pause
    have hcaller₁ : caller₁ n = w₁.cur () := by rw [own₁.spares.kept n hn, hcaller, own₁.cur]
    have hlast₁ : n ∈ w₁.kernel.senders → w₁.kernel.senders.head? = some n := by
      intro hmem
      obtain ⟨hsending, hhead⟩ := hlast (by simp) (own₁.spares.unsent n hn hcaller hmem)
      obtain ⟨rfl, -⟩ := pause.still fun hmay => nomatch hsending.symm.trans (hmay rfl)
      exact hhead
    let f : Kernel → Kernel := fun k =>
      { k with console := c :: k.console, senders := n :: k.senders, sending := !cs.isEmpty }
    have byte : OneMore n c w₁.kernel (f w₁.kernel) := ⟨rfl, rfl, rfl⟩
    have hn₁ := hn.trans_le own₁.spares.calls
    refine does_byte byte whole₁ hcaller₁ hn₁ hlast₁ fun inv' whole' =>
      ih inv' whole' ((own.trans own₁).byte byte hnew) hcaller₁ hn₁ fun hne _ => ⟨?_, rfl⟩
    change (!cs.isEmpty) = true
    simpa using hne

theorem safe_uartPuts (text : String) (own : OwnCalls w₀ caller₀ w caller) :
    (wholeLayer img).safe (uartPuts text) (fun _ => OwnCalls w₀ caller₀) w caller :=
  safe_begin own fun _ _ _ inv₁ whole₁ own₁ begun hnew =>
    safe_uartBytes _ inv₁ whole₁ own₁ hnew begun.mine begun.lt
      fun _ hmem => absurd hmem begun.unsent

end Safe

/-! ## Every run -/

section Runs

variable (img : Image)

/-- The parts of `main` between the calls of `uart_puts` send bytes by `printf` only. -/
theorem tame_mainEarly : Tame false (mainEarly img) :=
  .bind (.forEach fun _ => .printf _) fun _ => .bind (.liftMem _) fun _ => .liftMem _

theorem tame_mainLate (entries : List Word) : Tame false (mainLate img entries) :=
  .bind (.forEach fun _ => .printf _) fun _ => .bind (.liftMem _) fun _ =>
    .bind (.write fun k => ⟨fun _ => tidy_afterProcinit k.memory, rfl, nofun⟩) fun _ => .main entries

theorem sound_whole : (wholeLayer img).Sound where
  call {β i body w caller} heffect inv whole _ _ := safe_tame (tame_body nofun heffect) inv whole .refl
  handler {w wt caller} inv whole _ htrap := by
    have guarantee := (Process.verified.handler inv htrap).1
    obtain ⟨-, -, pc, rfl⟩ := htrap
    have hcalls : (trapEntry pc () w).kernel.calls = w.kernel.calls := rfl
    rw [next_same hcalls]
    exact ⟨keeps_silent whole rfl, safe_tame .kernelvec guarantee.inv (whole.silent rfl)
      ⟨rfl, .silent rfl⟩⟩
  fresh hfresh inv whole _ _ := by
    exact Layer.safe_mono inv whole (fun value _ _ _ _ _ => value.elim)
      (safe_tame (tame_fresh hfresh) inv whole .refl)

theorem whole_earlyWorld (memory : Memory) : WholeMessages (earlyWorld memory) where
  length := rfl
  begun _ hn := nomatch hn
  together _ _ _ _ _ _ hi := nomatch hi

theorem holds_printBoot (entries : List Word) (memory : Memory) :
    (wholeLayer img).Holds (printBoot img entries memory) fun _ => .cpu () where
  inv := whole_earlyWorld memory
  running := by
    have hlate : ∀ w caller, Inv img w → WholeMessages w →
        (wholeLayer img).safe (mainLate img entries) (fun value _ _ => value.elim) w caller :=
      fun w caller inv whole => Layer.safe_mono inv whole (fun value _ _ _ _ _ => value.elim)
        (safe_tame (tame_mainLate img entries) inv whole .refl)
    have hsecond : ∀ w caller, Inv img w → WholeMessages w → (wholeLayer img).safe (do
        uartPuts "Hello, OS!\n"
        mainLate img entries) (fun value _ _ => value.elim) w caller :=
      fun w caller inv whole => Layer.safe_seq inv whole (safe_uartPuts _ .refl)
        fun _ w' caller' inv' whole' _ => hlate w' caller' inv' whole'
    have hearly : ∀ w caller, Inv img w → WholeMessages w → (wholeLayer img).safe (do
        mainEarly img
        uartPuts "Hello, OS!\n"
        mainLate img entries) (fun value _ _ => value.elim) w caller :=
      fun w caller inv whole => Layer.safe_seq inv whole
        (safe_tame (tame_mainEarly img) inv whole .refl)
        fun _ w' caller' inv' whole' _ => hsecond w' caller' inv' whole'
    exact Layer.safe_seq (inv_earlyWorld memory) (whole_earlyWorld memory) (safe_uartPuts _ .refl)
      fun _ w' caller' inv' whole' _ => hearly w' caller' inv' whole'
  suspended _ _ _ _ _ _ _ _ _ _ _ := fun _ _ _ _ _ => trivial

end Runs

/-! ## The first messages -/

section First

variable {img : Image} {apart : Bool} {w w' : World Unit} {k : Kernel}
  {code : Code Unit Empty} {saved : Ctx Unit → Code Unit Empty}

variable (apart saved) in
theorem leads_printing {program : Code Unit α} {value : α} {next : α → Code Unit Empty}
    (hrun : Alone (platform img false) () program w (.ok (value, w'))) :
    Reachable (printing img apart) (lone w (program >>= next) saved)
      (lone w' (next value) saved) :=
  leads_alone hrun.restrict

variable (img apart code saved) in
/-- A timer interrupt that comes straight back. -/
theorem leads_ticked (idles : w.Idles k none (.cpu ()) true)
    (hawake : ∀ q, (k.proc q).state ≠ .sleeping) (hmay : apart = true → k.sending = false) :
    ∃ w', Reachable (printing img apart) (lone w code saved) (lone w' code saved) ∧
      w'.kernel = k.ticked := by
  obtain ⟨w', hhandler, hkernel⟩ := alone_kernelvec img false 0 idles hawake
  have htrap : (printing img apart).trap () w (trapEntry 0 () w) :=
    ⟨fun h => (congrArg Kernel.sending idles.kernel).trans (hmay h), idles.sie, nofun, 0, rfl⟩
  have hstep : Reachable (printing img apart) (lone w code saved)
      (lone (trapEntry 0 () w) (kernelvec img >>= fun _ => code) saved) :=
    lone_next (.single (.trap (m := lone w code saved) () htrap))
  exact ⟨w', hstep.trans (leads_printing apart saved hhandler), hkernel⟩

/-- What a call of `uart_puts` leaves. -/
def Kernel.puts (call : Nat) (cs : List Char) (k : Kernel) : Kernel :=
  { k.sends call cs with sending := k.sending && cs.isEmpty }

theorem alone_uartBytes (call : Nat) (cs : List Char) (w : World Unit) :
    Alone (platform img false) () (uartBytes call cs) w
      (.ok ((), w.withKernel (Kernel.puts call cs w.kernel))) := by
  induction cs generalizing w with
  | nil =>
    have hsame : w.withKernel (Kernel.puts call [] w.kernel) = w := by
      simp [Kernel.puts, Kernel.sends, World.withKernel]
    rw [hsame]
    exact .done ..
  | cons c cs ih =>
    let k₁ : Kernel :=
      { w.kernel with
        console := c :: w.kernel.console
        senders := call :: w.kernel.senders
        sending := !cs.isEmpty }
    have hputs : Kernel.puts call (c :: cs) w.kernel = Kernel.puts call cs k₁ := by
      rw [Kernel.puts, Kernel.puts, Kernel.sends_cons]
      simp [k₁, Kernel.sends]
    have hfirst : Alone (platform img false) () (uartPutsByte call cs.isEmpty c) w
        (.ok ((), w.withKernel k₁)) := alone_act _
    rw [hputs]
    exact hfirst.bind (ih (w.withKernel k₁))

/-- The bytes of the first message behind its first. -/
def helloRest : List Char := ['e', 'l', 'l', 'o', ',', ' ', 'O', 'S', '!', '\r', '\n']

theorem hello_bytes : crlf "Hello, OS!\n".toList = 'H' :: helloRest := by decide

theorem idles_early (memory : Memory) :
    (earlyWorld memory).Idles (earlyWorld memory).kernel none (.cpu ()) true :=
  ⟨rfl, ⟨rfl, fun _ => rfl⟩, rfl, rfl, rfl⟩

theorem early_awake (memory : Memory) (q : Slot) :
    ((earlyWorld memory).kernel.proc q).state ≠ .sleeping := nofun

/-- What `main` does behind the first message. -/
def afterHello (img : Image) (entries : List Word) : Code Unit Empty := do
  mainEarly img
  uartPuts "Hello, OS!\n"
  mainLate img entries

variable (img apart) in
/-- The call has its number. -/
theorem leads_hello (entries : List Word) (memory : Memory) :
    Reachable (printing img apart) (printBoot img entries memory)
      (lone ((earlyWorld memory).withKernel { (earlyWorld memory).kernel with calls := 1 })
        (uartBytes 0 ('H' :: helloRest) >>= fun _ => afterHello img entries)
        fun _ => Process.panic "never run") := by
  have hbegin : Alone (platform img false) () beginCall (earlyWorld memory)
      (.ok (0, (earlyWorld memory).withKernel { (earlyWorld memory).kernel with calls := 1 })) :=
    alone_act _
  have hmain : mainPrinting img entries = beginCall >>= fun call =>
      uartBytes call ('H' :: helloRest) >>= fun _ => afterHello img entries := by
    rw [mainPrinting, uartPuts, hello_bytes, bind_assoc]
    rfl
  rw [printBoot, hmain]
  exact leads_printing apart _ hbegin

variable (img) in
/-- The timer interrupts the first `uart_puts` after its first byte. -/
theorem leads_torn (entries : List Word) (memory : Memory) :
    ∃ m, Reachable (printing img false) (printBoot img entries memory) m ∧
      ¬ WholeMessages m.world := by
  let k₁ : Kernel :=
    { (earlyWorld memory).kernel with
      calls := 1
      console := ['H']
      senders := [0]
      sending := true }
  let w₁ := (earlyWorld memory).withKernel k₁
  have hfirst : Alone (platform img false) () (uartPutsByte 0 false 'H')
      ((earlyWorld memory).withKernel { (earlyWorld memory).kernel with calls := 1 })
      (.ok ((), w₁)) := alone_act _
  let saved : Ctx Unit → Code Unit Empty := fun _ => Process.panic "never run"
  obtain ⟨w₂, htick, hkernel⟩ := leads_ticked img false
    (uartBytes 0 helloRest >>= fun _ => afterHello img entries) saved
    ((idles_early memory).withKernel k₁) (early_awake memory) nofun
  let w₃ := w₂.withKernel
    { w₂.kernel with
      console := 'e' :: w₂.kernel.console
      senders := 0 :: w₂.kernel.senders
      sending := true }
  have hsecond : Alone (platform img false) () (uartPutsByte 0 false 'e') w₂ (.ok ((), w₃)) :=
    alone_act _
  have hnext : (uartBytes 0 helloRest >>= fun _ => afterHello img entries) =
      uartPutsByte 0 false 'e' >>= fun _ => uartBytes 0 helloRest.tail >>= fun _ =>
        afterHello img entries := rfl
  have hlast : Reachable (printing img false)
      (lone w₂ (uartBytes 0 helloRest >>= fun _ => afterHello img entries) saved)
      (lone w₃ (uartBytes 0 helloRest.tail >>= fun _ => afterHello img entries) saved) := by
    rw [hnext]
    exact leads_printing false saved hsecond
  have hstart := (leads_hello img false entries memory).trans
    ((leads_printing false saved hfirst).trans (htick.trans hlast))
  refine ⟨_, hstart, fun whole => ?_⟩
  have hsenders : w₂.kernel.senders = List.replicate
      ("tick " ++ decimal (0 + 1) ++ "\n").toList.length 1 ++ [0] := by
    rw [hkernel]
    rfl
  have htogether : Together (0 :: w₂.kernel.senders) := whole.together
  rw [hsenders] at htogether
  -- a byte of the interrupt stands between two bytes of the call
  have htorn := htogether 0 1 (("tick " ++ decimal (0 + 1) ++ "\n").toList.length + 1) 0
    Nat.zero_lt_one (by simp) rfl (by simp)
  simp at htorn

end First

/-- No message is torn by an interrupt that leaves a `uart_puts` alone. -/
theorem messages_whole (img : Image) (entries : List Word) (memory : Memory)
    {m : Config (Instr Unit) Unit (Ctx Unit) (World Unit)}
    (hreach : Reachable (printing img true) (printBoot img entries memory) m) :
    WholeMessages m.world := by
  obtain ⟨-, caller, holds⟩ := Layer.Holds.reachable Process.verified (sound_whole img)
    (good_printBoot entries memory) (holds_printBoot img entries memory) hreach
  exact holds.inv

theorem messages_whole_sample : ∃ m,
    Reachable (printing sampleImage true)
        (printBoot sampleImage [sampleEntry] ⟨fun _ => 0, 0, 0⟩) m ∧
      m.world.kernel.senders =
        List.replicate 7 2 ++ (List.replicate 18 1 ++ List.replicate 12 0) ∧
      WholeMessages m.world := by
  let memory : Memory := ⟨fun _ => 0, 0, 0⟩
  let k₁ : Kernel := Kernel.puts 0 ('H' :: helloRest) { (earlyWorld memory).kernel with calls := 1 }
  have hhello : Alone (platform sampleImage false) () (uartBytes 0 ('H' :: helloRest))
      ((earlyWorld memory).withKernel { (earlyWorld memory).kernel with calls := 1 })
      (.ok ((), (earlyWorld memory).withKernel k₁)) := alone_uartBytes 0 _ _
  obtain ⟨w₂, hprint, idles₂⟩ := alone_printf_idle sampleImage false
    ((idles_early memory).withKernel k₁) "Testinginteger:42\n"
  obtain ⟨rest, hrest⟩ : ∃ rest, afterHello sampleImage [sampleEntry] =
      Process.printf "Testinginteger:42\n" >>= fun _ => rest := by
    have hfirst : (Program.forEach greetings Process.printf : Code Unit Unit) =
        Process.printf "Testinginteger:42\n" >>= fun _ =>
          Program.forEach greetings.tail Process.printf := rfl
    simp only [afterHello, mainEarly, hfirst, bind_assoc]
    exact ⟨_, rfl⟩
  let saved : Ctx Unit → Code Unit Empty := fun _ => Process.panic "never run"
  obtain ⟨w₃, htick, hkernel⟩ := leads_ticked sampleImage true rest saved idles₂
    (early_awake memory) fun _ => rfl
  have hlast : Reachable (printing sampleImage true)
      (lone ((earlyWorld memory).withKernel k₁) (afterHello sampleImage [sampleEntry]) saved)
      (lone w₂ rest saved) := by
    rw [hrest]
    exact leads_printing true saved hprint
  have hreach := (leads_hello sampleImage true [sampleEntry] memory).trans
    ((leads_printing true saved hhello).trans (hlast.trans htick))
  refine ⟨_, hreach, ?_, messages_whole sampleImage [sampleEntry] memory hreach⟩
  have hlength : ("tick " ++ decimal (0 + 1) ++ "\n").toList.length = 7 := by decide
  change w₃.kernel.senders = _
  rw [hkernel, ← hlength]
  rfl

/-- The first line of the kernel can come out as `H`, a tick and the rest. -/
theorem messages_torn : ¬ ∀ m,
    Reachable (printing sampleImage false)
        (printBoot sampleImage [sampleEntry] ⟨fun _ => 0, 0, 0⟩) m →
      WholeMessages m.world := by
  intro hwhole
  obtain ⟨m, hreach, htorn⟩ := leads_torn sampleImage [sampleEntry] ⟨fun _ => 0, 0, 0⟩
  exact htorn (hwhole m hreach)

end Xv6Kernel.Console
