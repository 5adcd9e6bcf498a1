import Xv6Kernel.Foundation.Staying
import Xv6Kernel.Process.Overflow
import Xv6Kernel.Process.Tame

/-!
# A slot is used again

Whoever `alloc_process` hands a slot to finds in it the pid and the pages of the new
process, and nothing that depends on what the slot was used for before.
-/

namespace Xv6Kernel.Process

open Xv6Kernel.Foundation Xv6Kernel.Mm

variable {H : Type} {α β : Type}

/-- A slot set up for a new process; the rest is as it was. -/
def Proc.prepared (img : Image) (pid : CInt) (trapframe pagetable : Word) (s : Proc) : Proc :=
  { s with
    pid, trapframe, pagetable
    state := .used
    context := { Context.zero with ra := img.forkret, sp := s.kstack + pgSize } }

/-- The data of a slot but for the pid and the pages. -/
def Proc.plain (s : Proc) : Proc := { s with pid := 0, trapframe := 0, pagetable := 0 }

/-- What a new process finds in a slot, whatever was there before. -/
def Proc.fresh (img : Image) (p : Slot) : Proc where
  state := .used
  chan := none
  killed := 0
  xstate := 0
  pid := 0
  parent := none
  kstack := kstackVa p
  sz := 0
  pagetable := 0
  trapframe := 0
  context := { Context.zero with ra := img.forkret, sp := kstackVa p + pgSize }
  name0 := 0

/-- A tidy slot without parent that is set up for a new process. -/
theorem Proc.Tidy.prepared {p : Slot} {s : Proc} (tidy : s.Tidy p) (hunused : s.state = .unused)
    (hparent : s.parent = none) (hkilled : s.killed = 0) (img : Image) (pid : CInt)
    (trapframe pagetable : Word) :
    (s.prepared img pid trapframe pagetable).plain = .fresh img p := by
  obtain ⟨hkstack, hblank⟩ := tidy
  obtain ⟨hchan, hxstate, hsz, hname⟩ := hblank hunused
  simp only [Proc.plain, Proc.prepared, Proc.fresh, hkstack, hchan, hxstate, hsz, hname, hparent,
    hkilled]

/-! ## The slot of the hart -/

/-- The hart holds the lock of the slot, which contains `s`. -/
structure Reserving (p : Slot) (s : Proc) (h : H) (w : World H) : Prop where
  locked : (w.lock (.proc p)).locked = some h
  row : w.kernel.proc p = s

variable {S : Setting H} {h : H} {w w' : World H} {p : Slot} {s : Proc} {l : Local H}

theorem SlotKept.row {k k' : Kernel} (kept : SlotKept p k k') (hparent : k.parent p = none) :
    k'.proc p = k.proc p := by
  obtain ⟨parent, hproc⟩ := kept.proc
  have hnone : k'.parent p = none := kept.orphan hparent
  have hk' : parent = none := by
    rw [Kernel.parent, hproc] at hnone
    exact hnone
  rw [hproc, hk']
  have hk : (k.proc p).parent = none := hparent
  rw [← hk]

theorem Reserving.masked (reserving : Reserving p s h w) (inv : Inv S.img w) :
    (w.csr h).sstatus.sie = false := by
  cases hsie : (w.csr h).sstatus.sie with
  | false => rfl
  | true => exact absurd reserving.locked ((inv.quiet h hsie).unlocked _)

theorem Reserving.rely (reserving : Reserving p s h w) (hparent : s.parent = none)
    (rely : Rely S h w w') : Reserving p s h w' := by
  refine ⟨(rely.locked _).mpr reserving.locked, ?_⟩
  have kept := rely.frame.slot p reserving.locked
  rw [kept.row (by rw [Kernel.parent, reserving.row]; exact hparent), reserving.row]

/-- The slot is one of those that the hart has locked. -/
theorem Reserving.frame {full : Prop} {c : Ctx H} {held : Lock → Prop} {h' : H} {l' : Local H}
    (reserving : Reserving p s h w) (hparent : s.parent = none)
    (frame : Frame S full c held w.kernel w'.kernel) (hheld : held (.proc p))
    (on : On l' h' w') (hheld' : l'.held (.proc p)) : Reserving p s h' w' := by
  refine ⟨(on.held _).mpr hheld', ?_⟩
  rw [(frame.slot p hheld).row (by rw [Kernel.parent, reserving.row]; exact hparent),
    reserving.row]

/-! ## Code that leaves the slot aside -/

/-- It writes no slot and no lock word itself, and does not release the lock of `p`. -/
def Instr.Aside (p : Slot) : Instr H β → Prop
  | .act f => ∀ h w, (f h w).2.kernel.proc = w.kernel.proc ∧ (f h w).2.lock = w.lock
  | .acquire lk | .release lk => lk ≠ .proc p
  | .choose _ | .panic _ | .diverge => True
  | _ => False

def Aside (p : Slot) (code : Code H α) : Prop := code.Every fun i => i.Aside p

namespace Aside

theorem act {f : H → World H → β × World H}
    (hf : ∀ h w, (f h w).2.kernel.proc = w.kernel.proc ∧ (f h w).2.lock = w.lock) :
    Aside p (Process.act f) :=
  ⟨hf, fun _ => trivial⟩

theorem pure (value : α) : Aside p (Pure.pure value : Code H α) := trivial

theorem bind {code : Code H α} {rest : α → Code H β} (hcode : Aside p code)
    (hrest : ∀ value, Aside p (rest value)) : Aside p (code >>= rest) :=
  Program.Every.bind hcode hrest

theorem acquire {lk : Lock} (hne : lk ≠ .proc p) : Aside p (Process.acquire lk : Code H Unit) :=
  ⟨hne, fun _ => trivial⟩

theorem release {lk : Lock} (hne : lk ≠ .proc p) : Aside p (Process.release lk : Code H Unit) :=
  ⟨hne, fun _ => trivial⟩

theorem read (f : Kernel → β) : Aside p (Process.read f : Code H β) := act fun _ _ => ⟨rfl, rfl⟩

theorem write {f : Kernel → Kernel} (hf : ∀ k, (f k).proc = k.proc) :
    Aside p (Process.write f : Code H Unit) := act fun _ w => ⟨hf w.kernel, rfl⟩

theorem allocpid (q : Slot) : Aside p (Process.allocpid q : Code H CInt) :=
  bind (acquire nofun) fun _ => bind (read _) fun _ => bind (write fun _ => rfl) fun _ =>
    bind (release nofun) fun _ => pure _

theorem printf (text : String) : Aside p (Process.printf text : Code H Unit) := by
  have puts : ∀ (call : Nat) (cs : List Char),
      Aside p (Program.forEach cs (consputc call) : Code H Unit) := by
    intro call cs
    induction cs with
    | nil => exact trivial
    | cons c cs ih => exact bind (write fun _ => rfl) fun _ => ih
  exact bind (act fun _ _ => ⟨rfl, rfl⟩) fun _ => bind (acquire nofun) fun _ =>
    bind (puts _ _) fun _ => release nofun

theorem liftMem (program : MemM α) : Aside p (Process.liftMem program : Code H α) := by
  induction program with
  | done value => exact trivial
  | step i next ih =>
    cases i with
    | touch f => exact bind (act fun _ _ => ⟨rfl, rfl⟩) ih
    | critical f =>
      exact bind (acquire nofun) fun _ => bind (act fun _ _ => ⟨rfl, rfl⟩) fun answer =>
        bind (release nofun) fun _ => ih answer
    | panic message => exact ⟨trivial, fun never => trivial⟩
    | diverge => exact ⟨trivial, fun never => trivial⟩

end Aside

variable [DecidableEq H]

/-- It keeps what the hart holds and what the slot contains. -/
theorem Aside.keeps {code : Code H α} (aside : Aside p code) (inv : Inv S.img w)
    (reserving : Reserving p s h w) (hparent : s.parent = none) :
    (logic S).wlp code (fun _ h' w' => Reserving p s h' w') h w := by
  induction code generalizing h w with
  | done value => exact reserving
  | step i next ih =>
    intro h' w' env inv'
    obtain ⟨rfl, rely, -⟩ := env_off inv (reserving.masked inv) env
    have reserving' := reserving.rely hparent rely
    obtain ⟨hi, hnext⟩ := aside
    cases i with
    | act f =>
      intro guarantee
      obtain ⟨hproc, hlock⟩ := hi h' w'
      refine ih _ (hnext _) guarantee.inv ⟨?_, ?_⟩
      · rw [hlock]
        exact reserving'.locked
      · rw [hproc]
        exact reserving'.row
    | choose => exact fun answer => ih answer (hnext answer) inv' reserving'
    | panic message => trivial
    | diverge =>
      rintro ⟨l, on, -⟩ answer h'' w'' - hpost
      exact (hpost l on trivial).elim
    | acquire lk =>
      rintro ⟨l, on, hpre⟩ answer h'' w'' inv'' hpost
      obtain ⟨on'', frame, -⟩ := hpost l on hpre
      have hheld : l.held (.proc p) := (on.held _).mp reserving'.locked
      exact ih answer (hnext answer) inv'' (reserving'.frame hparent frame hheld on''
        (hheld.imp (List.mem_cons_of_mem _) id))
    | release lk =>
      rintro ⟨l, on, hpre⟩ answer h'' w'' inv'' hpost
      obtain ⟨on'', frame⟩ := hpost l on hpre
      have hmem : Lock.proc p ∈ l.locks.erase lk := by
        have hheld := ((on.held _).mp reserving'.locked).resolve_right (by simp [hpre.1])
        exact (List.mem_erase_of_ne (Ne.symm hi)).mpr hheld
      exact ih answer (hnext answer) inv'' (reserving'.frame hparent frame hmem on'' (.inl hmem))
    | _ => cases hi

/-! ## alloc_process -/

theorem wlp_writeOwn {f : Proc → Proc} {Q : Unit → H → World H → Prop} (inv : Inv S.img w)
    (reserving : Reserving p s h w) (hparent : s.parent = none)
    (hQ : ∀ w', Inv S.img w' → Reserving p (f s) h w' → Q () h w') :
    (logic S).wlp (writeProc p f) Q h w := by
  intro h' w' env _ guarantee
  obtain ⟨rfl, rely, -⟩ := env_off inv (reserving.masked inv) env
  have reserving' := reserving.rely hparent rely
  refine hQ _ guarantee.inv ⟨reserving'.locked, ?_⟩
  change (w'.kernel.setProc p f).proc p = f s
  rw [Kernel.setProc_proc_self, reserving'.row]

/-- Of a call nothing is asked but what it keeps. -/
theorem wlp_aside {code : Code H α} {Q : α → H → World H → Prop} (aside : Aside p code)
    (inv : Inv S.img w) (reserving : Reserving p s h w) (hparent : s.parent = none)
    (hQ : ∀ value h' w', Inv S.img w' → Reserving p s h' w' → Q value h' w') :
    (logic S).wlp code Q h w :=
  Logic.wlp_mono inv hQ (aside.keeps inv reserving hparent)

/-- What the new process finds when `alloc_process` has answered its slot. -/
def HandedOver (img : Image) (p : Slot) (s : Proc) (found : Option Slot) (h : H)
    (w : World H) : Prop :=
  found.isSome → ∃ pid trapframe pagetable,
    Reserving p (s.prepared img pid trapframe pagetable) h w

theorem wlp_allocFound (inv : Inv S.img w) (reserving : Reserving p s h w)
    (hparent : s.parent = none) :
    (logic S).wlp (allocFound S.img p) (HandedOver S.img p s) h w := by
  have fail : ∀ h w, (logic S).wlp (do
      freeProcess S.img p none
      release (.proc p)
      return none : Code H (Option Slot)) (HandedOver S.img p s) h w := by
    intro h w
    rw [← bind_assoc]
    exact (Logic.wlp_bind ..).mpr (Logic.wlp_any fun _ _ _ hsome => nomatch hsome)
  refine (Logic.wlp_bind ..).mpr (wlp_aside (.allocpid p) inv reserving hparent
    fun pid h₁ w₁ inv₁ reserving₁ => ?_)
  refine (Logic.wlp_bind ..).mpr (wlp_writeOwn inv₁ reserving₁ hparent
    fun w₂ inv₂ reserving₂ => ?_)
  refine (Logic.wlp_bind ..).mpr (wlp_aside (.printf _) inv₂ reserving₂ hparent
    fun _ h₃ w₃ inv₃ reserving₃ => ?_)
  refine (Logic.wlp_bind ..).mpr (wlp_aside (.liftMem _) inv₃ reserving₃ hparent
    fun trapframe h₄ w₄ inv₄ reserving₄ => ?_)
  refine (Logic.wlp_bind ..).mpr (wlp_writeOwn inv₄ reserving₄ hparent
    fun w₅ inv₅ reserving₅ => ?_)
  split
  · exact fail _ _
  refine (Logic.wlp_bind ..).mpr (wlp_aside (.liftMem _) inv₅ reserving₅ hparent
    fun pagetable h₆ w₆ inv₆ reserving₆ => ?_)
  refine (Logic.wlp_bind ..).mpr (wlp_writeOwn inv₆ reserving₆ hparent
    fun w₇ inv₇ reserving₇ => ?_)
  split
  · exact fail _ _
  refine (Logic.wlp_bind ..).mpr (wlp_writeOwn inv₇ reserving₇ hparent
    fun w₈ inv₈ reserving₈ => ?_)
  exact fun _ => ⟨pid, trapframe, pagetable, reserving₈⟩

/-! ## All runs -/

/-- The hart has come to the label `found` of `alloc_process` with the slot `p`. -/
structure Picks (img : Image) (h : H) (p : Slot) (rest : Option Slot → Code H Empty)
    (m : Config (Instr H) H (Ctx H) (World H)) : Prop where
  code : m.code h = allocFound img p >>= rest
  locked : (m.world.lock (.proc p)).locked = some h
  unused : (m.world.kernel.proc p).state = .unused

/-- At the end of some run `alloc_process` has just answered the slot `p`. -/
def HandsOut (img : Image) (p : Slot) (m : Config (Instr H) H (Ctx H) (World H)) : Prop :=
  ∃ hart quiet entries memory m₀ h rest,
    Reachable (platform img quiet) (boot img hart entries memory) m₀ ∧ Picks img h p rest m₀ ∧
      Staying (platform img quiet) h rest m₀ (allocFound img p) m (.done (some p))

omit [DecidableEq H] in
theorem HandedOver.rely (hparent : s.parent = none) {found : Option Slot}
    (handed : HandedOver S.img p s found h w) (rely : Rely S h w w') :
    HandedOver S.img p s found h w' := by
  intro hsome
  obtain ⟨pid, trapframe, pagetable, reserving⟩ := handed hsome
  exact ⟨pid, trapframe, pagetable, reserving.rely hparent rely⟩

/-- What the previous occupants did makes no difference. -/
theorem HandsOut.fresh {img : Image} {m : Config (Instr H) H (Ctx H) (World H)}
    (hands : HandsOut img p m) : (m.world.kernel.proc p).plain = .fresh img p := by
  obtain ⟨hart, quiet, entries, memory, m₀, h, rest, hrun, picks, staying⟩ := hands
  have good : (logic ⟨img, hart, quiet⟩).Good m₀ :=
    Reaches.good (S := ⟨img, hart, quiet⟩) hrun
  have hparent : (m₀.world.kernel.proc p).parent = none :=
    (good.inv.data.slot p).unused picks.unused
  have hwlp := wlp_allocFound (S := ⟨img, hart, quiet⟩) good.inv ⟨picks.locked, rfl⟩ hparent
  have start : Logic.Stays (logic ⟨img, hart, quiet⟩) h rest
      (HandedOver img p (m₀.world.kernel.proc p)) m₀ (allocFound img p) :=
    ⟨good, picks.code, hwlp⟩
  have stays := start.staying verified (fun _ _ => HandedOver.rely hparent) staying
  obtain ⟨pid, trapframe, pagetable, reserving⟩ := stays.wlp rfl
  rw [reserving.row]
  exact (tidy_boot hrun p).prepared picks.unused hparent (good.inv.data.slot p).killed img pid
    trapframe pagetable

/-- Two runs that are handed the same slot find the same in it, but for the pid and the
pages. -/
theorem slot_reuse_leaks_nothing {H' : Type} [DecidableEq H'] {img : Image}
    {m : Config (Instr H) H (Ctx H) (World H)} {m' : Config (Instr H') H' (Ctx H') (World H')}
    (hands : HandsOut img p m) (hands' : HandsOut img p m') :
    (m.world.kernel.proc p).plain = (m'.world.kernel.proc p).plain :=
  hands.fresh.trans hands'.fresh.symm

/-! ## A slot that is used twice -/

section Reused

variable {quiet : Bool} {w : World Unit} {k : Kernel} {proc : Option Slot} {cur : Ctx Unit}
  {sie : Bool} {n : Nat} {saved : Ctx Unit → Code Unit Empty}

/-- A hart that is left alone gets from the label `found` to the answer. -/
theorem handsOut_alone {entries : List Word} {memory : Memory}
    (rest : Option Slot → Code Unit Empty)
    (hreach : Reachable (platform sampleImage quiet) (boot sampleImage () entries memory)
      (lone w (allocFound sampleImage p >>= rest) saved))
    (guards : w.Guards k proc cur p sie) (room : Room sampleImage k 4)
    (hp : k.state p = .unused) :
    ∃ m, HandsOut sampleImage p m ∧ (m.world.kernel.proc p).pid = k.nextpid ∧
      Reachable (platform sampleImage quiet) (lone w (allocFound sampleImage p >>= rest) saved)
        m := by
  obtain ⟨himg, tramp, -⟩ := sampleImage_ok
  obtain ⟨pages, trees, others, owned, hempty, hn⟩ := room
  obtain ⟨m, pages', nodes, root, hcomputes, -, -, -⟩ := computes_allocFound quiet () p
    himg.ranged tramp owned (hempty p hp) (by omega)
  have hfound := hcomputes w guards.off guards.idle guards.kernel
  let m₀ := lone w (allocFound sampleImage p >>= rest) saved
  have hpicks : Picks sampleImage () p rest m₀ :=
    ⟨rfl, by simp only [m₀, lone, guards.lock], by simp only [m₀, lone, guards.kernel]; exact hp⟩
  have hlast := Program.bind_pure' (allocFound (H := Unit) sampleImage p)
  have hbegin : Staying (platform sampleImage quiet) () rest m₀ (allocFound sampleImage p) m₀
      (allocFound sampleImage p >>= .done) := by
    rw [hlast]
    exact .start
  have hcode : m₀.code () = allocFound sampleImage p >>= .done >>= rest := by
    rw [hlast]
    rfl
  have hend := hfound.staying rfl hcode hbegin
  refine ⟨_, ⟨(), quiet, entries, memory, m₀, (), rest, hreach, hpicks, hend⟩, ?_,
    hfound.reachable (m := m₀) rfl rfl⟩
  change ((k.allocated sampleImage p m k.memory.freelist root).proc p).pid = _
  rw [allocated_self]

/-- The second process of `main` creates a child in the first slot that is free. -/
theorem handsOut_child {memory : Memory} (next : Empty → Code Unit Empty)
    (hreach : Reachable (platform sampleImage quiet)
      (boot sampleImage () [sampleEntry, sampleEntry] memory)
      (lone w (Program.perform (.client []) >>= next) saved))
    (idles : w.Idles k (some slot₂) (.proc slot₂) false) (home : Home n k) :
    ∃ m, HandsOut sampleImage slot₃ m ∧ (m.world.kernel.proc slot₃).pid = pidOf n ∧
      Reachable (platform sampleImage quiet)
        (lone w (Program.perform (.client []) >>= next) saved) m := by
  have hfree : k.state slot₃ = .unused := home.unused slot₃ (by decide)
  obtain ⟨w₁, hscan, guards⟩ := alone_allocScan sampleImage quiet (slots.drop 4) idles
    home.used hfree
  rw [← slots_eq₃] at hscan
  let last : CInt → Code Unit Empty := fun _ => afterAction next ()
  have hclient : Reachable (platform sampleImage quiet)
      (lone w (Program.perform (.client []) >>= next) saved)
      (lone w (createProcess sampleImage sampleEntry >>= last) saved) := by
    have hrun : Reachable (platform sampleImage quiet)
        (lone w (Program.perform (.client []) >>= next) saved) _ :=
      leads_client (.createProcess sampleEntry)
    simp only [takeAction, if_true, bind_assoc] at hrun
    exact hrun
  simp only [createProcess, allocProcess, bind_assoc] at hclient
  have hfound := hclient.trans (leads_alone hscan)
  obtain ⟨m, hands, hpid, hrest⟩ := handsOut_alone _ (hreach.trans hfound) guards home.room hfree
  exact ⟨m, hands, hpid.trans home.nextpid, hfound.trans hrest⟩

end Reused

/-- The slot of a child that has been reaped, compared with what the child was handed. -/
theorem slot_reuse_leaks_nothing_sample :
    ∃ m m' : Config (Instr Unit) Unit (Ctx Unit) (World Unit),
      HandsOut sampleImage slot₃ m ∧ (m.world.kernel.proc slot₃).pid = 4 ∧
        HandsOut sampleImage slot₃ m' ∧ (m'.world.kernel.proc slot₃).pid = 5 ∧
        (∃ m₀, Reachable (platform sampleImage false) m₀ m' ∧
          m₀.world.kernel.state slot₃ = .runnable ∧ (m₀.world.kernel.proc slot₃).pid = 4) ∧
        (m.world.kernel.proc slot₃).plain = (m'.world.kernel.proc slot₃).plain := by
  obtain ⟨memory, w, k, saved, next, hreach, idles, home, hcpu, hsaved⟩ := rounds false (le_refl 4)
  obtain ⟨m, hm, hpid, -⟩ := handsOut_child next hreach idles home
  obtain ⟨w₁, k₁, hbred, idles₁, family₁, hpid₁, hra, hs0⟩ := leads_bred false saved next idles home
  obtain ⟨w₂, k₂, saved₂, hraised, idles₂, home₂, -, -⟩ := leads_raised false saved next idles₁
    family₁ hra hs0 hcpu hsaved
  obtain ⟨m', hm', hpid', hrest⟩ := handsOut_child next (hreach.trans (hbred.trans hraised)) idles₂
    home₂
  refine ⟨m, m', hm, hpid, hm', hpid', ⟨_, hraised.trans hrest, ?_, ?_⟩,
    slot_reuse_leaks_nothing hm hm'⟩
  · change w₁.kernel.state slot₃ = _
    rw [idles₁.kernel]
    exact family₁.state₃
  · change (w₁.kernel.proc slot₃).pid = _
    rw [idles₁.kernel, hpid₁]
    rfl

end Xv6Kernel.Process
