import Xv6Kernel.Foundation.Layers
import Xv6Kernel.Process.Runs

/-!
# The messages of main

One hart that runs `main` from `trapinithart` on.  Every call of `printf` and `uart_puts`
gets a number when it begins, and each byte is kept with the number of the call that sends
it.  `printf` takes `printlock`, which keeps interrupts off; `uart_puts` does not.  Before
`procinit` there are no processes, and the kernel's logic holds from the first message on.
-/

namespace Xv6Kernel.Console

open Xv6Kernel.Foundation Xv6Kernel.Mm Xv6Kernel.Process

variable {α β : Type}

/-! ## The code -/

/-- The bytes that `uart_puts` sends. -/
def crlf (cs : List Char) : List Char :=
  cs.flatMap fun c => if c = '\n' then ['\r', c] else [c]

/-- `uart_putc` in a call of `uart_puts`. -/
def uartPutsByte (call : Nat) (last : Bool) (c : Char) : Code Unit Unit :=
  write fun k =>
    { k with
      console := c :: k.console
      senders := call :: k.senders
      sending := !last }

def uartBytes (call : Nat) : List Char → Code Unit Unit
  | [] => return ()
  | c :: cs => do
      uartPutsByte call cs.isEmpty c
      uartBytes call cs

def uartPuts (s : String) : Code Unit Unit := do
  let call ← beginCall
  uartBytes call (crlf s.toList)

/-- What `main` prints by `printf`, once before and once after paging is on. -/
def greetings : List String :=
  ["Testinginteger:42\n", "Testingnegative:-123\n", "Testingzero:0\n", "Testinghex:0xabc\n",
    "Testingstring:Hello\n", "Testingchar:X\n", "Testingpercent:%\n", "INT_MAX:2147483647\n",
    "INT_MIN:-2147483648\n", "NULLstring:(null)\n", "Emptystring:", "\x1b[2J", "\x1b[H"]

/-- `main` from the first `uart_puts` to the second. -/
def mainEarly (img : Image) : Code Unit Unit := do
  Program.forEach greetings Process.printf
  liftMem (pmmInit img)
  liftMem (kvminit img)

/-- `procinit` sets up the process table. -/
def procTable : Code Unit Unit :=
  write fun k => { k with proc := (afterProcinit k.memory).proc }

/-- `main` from the second `uart_puts` on. -/
def mainLate (img : Image) (entries : List Word) : Code Unit Empty := do
  Program.forEach greetings Process.printf
  liftMem procinit
  procTable
  main img entries

def mainPrinting (img : Image) (entries : List Word) : Code Unit Empty := do
  uartPuts "Hello, OS!\n"
  mainEarly img
  uartPuts "Hello, OS!\n"
  mainLate img entries

/-! ## The machine -/

/-- Where interrupts are taken; if `apart`, then not in the middle of a `uart_puts`. -/
def MayInterrupt (apart : Bool) (w : World Unit) : Prop :=
  apart = true → w.kernel.sending = false

def printing (img : Image) (apart : Bool) : Platform (Instr Unit) Unit (Ctx Unit) (World Unit) :=
  (platform img false).restrict (MayInterrupt apart)

/-- Before `procinit` the process table is zero. -/
def earlyWorld (memory : Memory) : World Unit :=
  { bootWorld memory with
    kernel :=
      { afterProcinit memory with
        proc := fun p => { (afterProcinit memory).proc p with kstack := 0 } } }

def printBoot (img : Image) (entries : List Word) (memory : Memory) :
    Config (Instr Unit) Unit (Ctx Unit) (World Unit) :=
  lone (earlyWorld memory) (mainPrinting img entries) fun _ => Process.panic "never run"

/-! ## The kernel's logic -/

section Good

variable (img : Image)

attribute [local irreducible] Lawful

theorem lawful_pmmInit : Lawful (pmmInit img) := by
  have loop : ∀ fuel p, Lawful (freerangeLoop img physTop fuel p) := by
    intro fuel
    induction fuel with
    | zero => exact fun _ => lawful_diverge
    | succ fuel ih =>
      exact fun p => lawful_ite ((lawful_freePage img p).bind fun _ => ih _) (lawful_pure ())
  exact loop _ _

theorem lawful_kvmmap (kpgtbl va pa sz perm : Word) : Lawful (kvmmap kpgtbl va pa sz perm) := by
  have loop : ∀ last fuel a pa, Lawful (kvmmapLoop kpgtbl last perm fuel a pa) := by
    intro last fuel
    induction fuel with
    | zero => exact fun _ _ => lawful_diverge
    | succ fuel ih =>
      intro a pa
      have rest : Lawful (if a = last then pure () else
          kvmmapLoop kpgtbl last perm fuel (a + pgSize) (pa + pgSize)) :=
        lawful_ite (lawful_pure ()) (ih _ _)
      exact (lawful_mapPage ..).bind fun r =>
        lawful_ite ((lawful_panic (by decide)).bind fun _ => rest) rest
  exact lawful_ite (lawful_pure ()) (loop ..)

theorem lawful_kvminit : Lawful (kvminit img) :=
  lawful_createPagetable.bind fun _ => (lawful_touch _).bind fun _ => (lawful_kvmmap ..).bind
    fun _ => (lawful_kvmmap ..).bind fun _ => lawful_kvmmap ..

theorem lawful_procinit : Lawful procinit := by
  refine lawful_forEach fun p => lawful_allocPage.bind fun pa => ?_
  have rest : Lawful (touch (fun m => (m.kernelPagetable, m)) >>= fun kernelPagetable =>
      kvmmap kernelPagetable (kstackVa p) pa pgSize (pteR ||| pteW)) :=
    (lawful_touch _).bind fun _ => lawful_kvmmap ..
  exact lawful_ite ((lawful_panic (by decide)).bind fun _ => rest) rest

attribute [local irreducible] pmmInit kvminit procinit

abbrev printSetting : Setting Unit := ⟨img, (), false⟩

/-- The hart before there are processes. -/
abbrev mainHart : Local Unit := .ofCpu () [] true none

variable {img}

theorem stable_early : Stable (printSetting img) mainHart (Unbooted 0) := stable_unbooted rfl

theorem uartPuts_early (text : String) :
    Triple (printSetting img) mainHart (Unbooted 0) (uartPuts text) (fun _ => mainHart)
      fun _ => Unbooted 0 := by
  have bytes : ∀ call cs, Triple (printSetting img) mainHart (Unbooted 0) (uartBytes call cs)
      (fun _ => mainHart) fun _ => Unbooted 0 := by
    intro call cs
    induction cs with
    | nil => exact .pure (fun _ => id) rfl
    | cons c cs ih =>
      refine (Triple.untouched (f := fun k => ((),
        { k with
          console := c :: k.console
          senders := call :: k.senders
          sending := !cs.isEmpty })) stable_early fun _ => ?_).bind fun _ => ih
      exact ⟨rfl, rfl, rfl, rfl, rfl, rfl, rfl⟩
  refine (Triple.untouched (f := fun k => (k.calls, { k with calls := k.calls + 1 })) stable_early
    fun _ => ?_).bind fun call => bytes call _
  exact ⟨rfl, rfl, rfl, rfl, rfl, rfl, rfl⟩

theorem greetings_early :
    Triple (printSetting img) mainHart (Unbooted 0) (Program.forEach greetings Process.printf)
      (fun _ => mainHart) fun _ => Unbooted 0 :=
  Triple.forEach (F := fun _ => Unbooted 0) fun text _ =>
    .printf stable_early rfl rfl (by simp [Local.ofCpu]) rfl text

theorem liftMem_early {program : MemM Unit} (lawful : Lawful program) :
    Triple (printSetting img) mainHart (Unbooted 0) (liftMem program) (fun _ => mainHart)
      fun _ => Unbooted 0 :=
  .liftMem lawful stable_early rfl rfl (by simp [Local.ofCpu]) rfl

/-- The data before the first process. -/
theorem data_nobody {k : Kernel} (hstate : ∀ p, k.state p = .unused)
    (hparent : ∀ p, k.parent p = none) (hkilled : ∀ p, (k.proc p).killed = 0)
    (hbooted : k.booted = false) (hlog : k.log = [])
    (hnext : k.nextpid = pidOf (k.born + 1)) (hle : ∀ p, k.serial p ≤ k.born)
    (hinj : ∀ {p q}, k.serial p = k.serial q → k.serial p ≠ 0 → p = q) : Data img k := by
  have hdead : ∀ p, ¬ (k.state p).Live := fun p hlive => by
    rw [hstate p] at hlive
    exact hlive
  refine ⟨⟨fun {q p} hp => ?_, fun _ => hdead, fun hb => ?_⟩,
    ⟨hnext, hle, hinj, fun {p} hlive => absurd hlive (hdead p),
      fun {p} hlive => absurd hlive (hdead p)⟩, fun p => ?_, ?_, fun _ => hlog,
    fun {q p} hp => ?_, fun hb => ?_⟩
  · exact nomatch (hparent q).symm.trans hp
  · exact nomatch hbooted.symm.trans hb
  · have hunused : (k.proc p).state = .unused := hstate p
    refine ⟨hkilled p, fun _ => hparent p, fun h => ?_, fun h => ?_, fun h => ?_, fun h => ?_⟩
    · exact nomatch hunused.symm.trans h
    · exact nomatch hunused.symm.trans h
    · rw [hunused] at h
      exact h.elim
    · exact nomatch hunused.symm.trans h
  · rw [hlog]
    exact Hist.nothing hdead
  · exact nomatch (hparent q).symm.trans hp
  · exact nomatch hbooted.symm.trans hb

/-- Nobody has a process yet, so that the table may be written without a lock. -/
theorem inv_procTable {w : World Unit} (inv : Inv img w) (hcur : w.cur () = .cpu ())
    (hboot : Unbooted 0 w.kernel) :
    Inv img (w.withKernel { w.kernel with proc := (afterProcinit w.kernel.memory).proc }) := by
  have hdead : ∀ p, ¬ (w.kernel.state p).Live := inv.data.tree.unbooted hboot.booted
  have hcpu : ∀ {h : Unit} {p : Slot}, w.cur h ≠ .proc p := by
    rintro ⟨⟩ p hproc
    exact nomatch hcur.symm.trans hproc
  have hunarmed : ∀ p, w.kernel.phase p ≠ .armed := by
    intro p harmed
    rcases inv.armed harmed with ⟨hsleeping, -⟩ | ⟨h, hproc, -⟩
    · exact hdead p (by rw [hsleeping]; trivial)
    · exact hcpu hproc
  have hquiet : ∀ h, (w.csr h).sstatus.sie = true → Quiet (w.withKernel
      { w.kernel with proc := (afterProcinit w.kernel.memory).proc }) h := fun h hsie =>
    ⟨(inv.quiet h hsie).unlocked, (inv.quiet h hsie).noff, (inv.quiet h hsie).proc⟩
  refine ⟨hquiet, inv.lock_cpu, inv.cur_cpu, inv.cur_inj, fun h => absurd h hcpu,
    inv.proc_cur, inv.proc_held, inv.proc_inj, nofun, fun _ p harmed => absurd harmed (hunarmed p),
    fun {p} harmed => absurd harmed (hunarmed p), fun _ halive => halive.elim, ?_⟩
  exact data_nobody (fun _ => rfl) (fun _ => rfl) (fun _ => rfl) hboot.booted
    (inv.data.start hboot.booted) inv.data.pids.next inv.data.pids.le inv.data.pids.inj

theorem procTable_early :
    Triple (printSetting img) mainHart (Unbooted 0) procTable (fun _ => mainHart)
      fun _ => Unbooted 0 := by
  refine .act stable_early fun h w inv on hboot => ?_
  have hcur : w.cur () = .cpu () := on.ctx
  have hdead : ∀ p, ¬ (w.kernel.state p).Live := inv.data.tree.unbooted hboot.booted
  refine ⟨⟨inv_procTable inv hcur hboot, fun p => ?_, rfl, fun h' hne => absurd rfl hne,
    fun c hc => ?_⟩, on.write _, hboot.booted, hboot.initproc, hboot.born⟩
  · change StateMove _ p _ (w.kernel.state p) .unused
    cases hstate : w.kernel.state p with
    | unused => exact .still _
    | used => exact .free
    | _ => exact absurd (by rw [hstate]; trivial) (hdead p)
  · cases c with
    | cpu h' => exact absurd hcur (hc ())
    | proc p =>
      exact ⟨fun halive => absurd halive.live (hdead p), fun _ _ _ halive => halive.elim,
        ⟨List.suffix_rfl, fun q hlive => absurd hlive (hdead q)⟩, nofun⟩

theorem inv_earlyWorld (memory : Memory) : Inv img (earlyWorld memory) where
  quiet _ _ := ⟨fun _ => nofun, rfl, rfl⟩
  lock_cpu := nofun
  cur_cpu hcur := (Ctx.cpu.inj hcur).symm
  cur_inj := nofun
  cur_state := nofun
  proc_cur := nofun
  proc_held := nofun
  proc_inj := nofun
  claimed := nofun
  calm _ _ := nofun
  armed := nofun
  fresh _ halive := halive.elim
  data := data_nobody (fun _ => rfl) (fun _ => rfl) (fun _ => rfl) rfl rfl rfl (fun _ => le_rfl)
    fun _ hne => absurd rfl hne

theorem on_earlyWorld (memory : Memory) : On mainHart () (earlyWorld memory) where
  ctx := rfl
  held lk := iff_of_false nofun (by simp [Local.held, Local.ofCpu])
  cpu _ hlk := nomatch hlk
  nodup := List.nodup_nil
  half := nofun
  proc := rfl
  noff := rfl
  unmasked _ := rfl
  masked hne := absurd rfl hne

theorem good_printBoot (entries : List Word) (memory : Memory) :
    (logic (printSetting img)).Good (printBoot img entries memory) where
  inv := inv_earlyWorld memory
  running _ := by
    have early : Triple (printSetting img) mainHart (Unbooted 0) (mainEarly img)
        (fun _ => mainHart) fun _ => Unbooted 0 := by
      rw [mainEarly]
      exact greetings_early.bind fun _ => (liftMem_early (lawful_pmmInit img)).bind fun _ =>
        liftMem_early (lawful_kvminit img)
    have setup : Triple (printSetting img) mainHart (Unbooted 0) (do
        uartPuts "Hello, OS!\n"
        mainEarly img
        uartPuts "Hello, OS!\n"
        Program.forEach greetings Process.printf
        liftMem procinit
        procTable) (fun _ => mainHart) fun _ => Unbooted 0 := by
      refine (uartPuts_early _).bind fun _ => early.bind fun _ => (uartPuts_early _).bind fun _ => ?_
      exact greetings_early.bind fun _ => (liftMem_early lawful_procinit).bind fun _ =>
        procTable_early
    have hwp := setup.wp (inv_earlyWorld memory) (on_earlyWorld memory) ⟨rfl, rfl, rfl⟩
      (Q := fun _ => (logic (printSetting img)).wp (main img entries) fun value _ _ => value.elim)
      fun _ h w inv on hboot => main_spec inv on hboot
    have hmain := ((logic (printSetting img)).wp_bind ..).mpr hwp
    change (logic (printSetting img)).wp (mainPrinting img entries) _ () (earlyWorld memory)
    simpa only [mainPrinting, mainLate, bind_assoc] using hmain
  suspended _ _ _ _ _ _ _ _ _ _ _ _ := by
    change "never run" ∉ lockPanics
    decide

end Good

end Xv6Kernel.Console
