import Xv6Kernel.Process.Claiming

/-!
# `alloc_process` among other harts

The search takes the lock of an unused slot, and with it the slot is out of everybody
else's reach until the new process is runnable.
-/

namespace Xv6Kernel.Process

open Xv6Kernel.Foundation Xv6Kernel.Mm

variable {H : Type} {S : Setting H} {α β : Type} {l : Local H} {F F' : Kernel → Prop}
  {h : H} {w : World H} {p q : Slot} {c : Ctx H} {k : Kernel} {img : Image}

/-! ## What is known of the slot -/

/-- The hart holds nothing and has interrupts enabled or disabled as `sie` says. -/
structure Local.Bare (l : Local H) : Prop where
  locks : l.locks = []
  half : l.half = none
  depth : l.depth = 0
  proc : l.proc = l.ctx.slot

theorem Local.Bare.held (bare : l.Bare) (lk : Lock) : ¬ l.held lk := by
  simp [Local.held, bare.locks, bare.half]

/-- The same hart with one lock. -/
def Local.one (l : Local H) (lk : Lock) : Local H := { l with locks := [lk] }

theorem Local.Bare.cons (bare : l.Bare) (lk : Lock) :
    { l with locks := lk :: l.locks } = l.one lk := by
  rw [bare.locks]
  rfl

theorem Stable.one (hF : Stable S l F) (bare : l.Bare) (lk : Lock) :
    Stable S (l.one lk) F :=
  bare.cons lk ▸ hF.cons lk

theorem Local.held_one (l : Local H) (lk : Lock) : (l.one lk).held lk :=
  .inl (by simp [Local.one])

/-- The slot holds no process, and the running process is awake. -/
structure Reserved (c : Ctx H) (q : Slot) (state : ProcState) (k : Kernel) : Prop where
  state : k.state q = state
  orphan : k.parent q = none
  awake : ∀ p, c = .proc p → Awake p k

/-- The slot has a pid that nobody else has had. -/
structure Numbered (c : Ctx H) (q : Slot) (k : Kernel) : Prop where
  serial : k.serial q ≠ 0
  unforked : ¬ HasForked k.log (k.serial q)
  younger : ∀ p, c = .proc p → k.serial p < k.serial q

theorem Reserved.ne {state : ProcState} (reserved : Reserved c q state k)
    (hstate : ¬ state.Live) : c ≠ .proc q := by
  intro hc
  have halive := (reserved.awake q hc).1
  rw [reserved.state] at halive
  exact hstate halive.live

theorem stable_awakeAt : Stable S l fun k => ∀ p, l.ctx = .proc p → Awake p k :=
  .all fun _ => fun _ _ frame hk hc => stable_awake hc _ _ frame (hk hc)

theorem stable_reserved {state : ProcState} (hheld : l.held (.proc q)) :
    Stable S l (Reserved l.ctx q state) := fun _ _ frame hk =>
  have kept := frame.slot q hheld
  ⟨kept.state.trans hk.state, kept.orphan hk.orphan, stable_awakeAt _ _ frame hk.awake⟩

theorem stable_numbered {state : ProcState} (hheld : l.held (.proc q)) :
    Stable S l fun k => Reserved l.ctx q state k ∧ Numbered l.ctx q k := by
  rintro k k' frame ⟨hreserved, hnumbered⟩
  have kept := frame.slot q hheld
  refine ⟨stable_reserved hheld _ _ frame hreserved, ?_, ?_, fun p hp => ?_⟩
  · rw [kept.serial]
    exact hnumbered.serial
  · rw [kept.serial]
    exact kept.unforked hnumbered.unforked
  · have hown := frame.own
    rw [hp] at hown
    obtain ⟨phase, heq, -⟩ := (hown (hreserved.awake p hp).1).shadow
    have hserial : k'.serial p = k.serial p := by rw [Kernel.serial, heq]; rfl
    rw [hserial, kept.serial]
    exact hnumbered.younger p hp

/-! ## allocpid -/

section PidTaken

theorem pidTaken_shadow (q : Slot) (k : Kernel) : (k.pidTaken q).shadow =
    Function.update k.shadow q { k.shadow q with serial := k.born + 1 } := rfl

theorem pidTaken_serial (q : Slot) (k : Kernel) :
    (k.pidTaken q).serial = Function.update k.serial q (k.born + 1) :=
  Kernel.setShadow_serial k q fun s => { s with serial := k.born + 1 }

theorem pidTaken_creator (q : Slot) (k : Kernel) : (k.pidTaken q).creator = k.creator :=
  (Kernel.setShadow_creator k q fun s => { s with serial := k.born + 1 }).trans
    (Function.update_eq_self ..)

theorem pidTaken_phase (q : Slot) (k : Kernel) : (k.pidTaken q).phase = k.phase :=
  (Kernel.setShadow_phase k q fun s => { s with serial := k.born + 1 }).trans
    (Function.update_eq_self ..)

theorem Data.pidTaken (data : Data img k) (hunused : k.state q = .unused)
    (hparent : k.parent q = none) : Data img (k.pidTaken q) := by
  have hserial := pidTaken_serial q k
  have hdead : ¬ (k.state q).Live := by
    rw [hunused]
    exact id
  refine ⟨data.tree, ?_, fun p => ?_, ?_, data.start, fun {r p} hr => ?_, fun hb i hi => ?_⟩
  · rw [hserial]
    exact data.pids.alloc hdead
  · by_cases hp : p = q
    · subst hp
      have hslot := data.slot p
      rw [pidTaken_shadow, Function.update_self]
      exact ⟨hslot.killed, hslot.unused, hslot.sleeping, hslot.runnable, hslot.entry,
        fun hs => absurd (hunused.symm.trans hs) (by simp)⟩
    · rw [pidTaken_shadow, Function.update_of_ne hp]
      exact data.slot p
  · rw [hserial, pidTaken_creator, pidTaken_phase]
    exact data.hist.alloc data.tree hdead data.start
  · have hr' : k.parent r = some p := hr
    have hne : r ≠ q := by
      rintro rfl
      rw [hparent] at hr'
      cases hr'
    have halive : p ≠ q := by
      rintro rfl
      exact hdead (data.tree.parent_alive hr').live
    rw [hserial, Function.update_of_ne hne, Function.update_of_ne halive]
    exact data.order hr'
  · have hb' : k.booted = true := hb
    have hi' : k.initproc = some i := hi
    obtain ⟨j, hj, halive⟩ := data.tree.init hb'
    have hne : i ≠ q := by
      rintro rfl
      rw [hi'] at hj
      cases hj
      exact hdead halive.live
    rw [hserial, Function.update_of_ne hne]
    exact data.root hb' i hi'

theorem owed_pidTaken {held : Lock → Prop} (hdead : ¬ (k.state q).Live)
    (hparent : k.parent q = none) : SlotOwed S c held q k (k.pidTaken q) where
  self _ halive := absurd halive.live hdead
  reborn _ hdead' halive := absurd halive hdead'
  child r _ hr := by
    rw [hparent] at hr
    cases hr
  wait _ := ⟨rfl, .rfl, by rw [pidTaken_phase]; exact id⟩
  orphan hlive := absurd hlive hdead
  unforked _ _ := id

theorem pidTaken_write (q : Slot) (k : Kernel) : SlotWrite q k (k.pidTaken q) where
  proc _ _ := rfl
  shadow _ hne := by rw [pidTaken_shadow, Function.update_of_ne hne]
  log := List.suffix_rfl

theorem change_pidTaken (inv : Inv S.img w) (on : On l h w) (hheld : l.held (.proc q))
    (hpid : l.held .pid) (hunused : w.kernel.state q = .unused)
    (hparent : w.kernel.parent q = none)
    (hboot : w.kernel.booted = true ∨ l.ctx = .cpu S.hart) :
    Change S l w (w.kernel.pidTaken q) := by
  have hdead : ¬ (w.kernel.state q).Live := by
    rw [hunused]
    exact id
  have sw := pidTaken_write q w.kernel
  have hboot' : l.ctx = .cpu S.hart ∧ (∀ r, ¬ (w.kernel.state r).Live) ∨
      BootKept w.kernel (w.kernel.pidTaken q) := by
    cases hb : w.kernel.booted with
    | true => exact .inr ⟨rfl, rfl, fun hfalse => by rw [hb] at hfalse; cases hfalse⟩
    | false =>
        rw [hb] at hboot
        exact .inl ⟨hboot.resolve_left (by simp), inv.data.tree.unbooted hb⟩
  refine sw.change inv on hheld (inv.data.pidTaken hunused hparent)
    (sw.others (owed_pidTaken hdead hparent) hheld hboot' fun hnot => absurd hpid hnot)
    (.inr (.inr rfl)) (fun harmed => ?_) (fun _ halive => absurd halive.live hdead) (.inl rfl)
  rw [pidTaken_phase] at harmed
  exact inv.armed harmed

/-- Once the first process runs, taking a pid disturbs nobody. -/
theorem frame_pidTaken {full : Prop} (hne : c ≠ .proc q) (hdead : ¬ (k.state q).Live)
    (hparent : k.parent q = none) (hboot : k.booted = true) :
    Frame S full c (fun _ => False) k (k.pidTaken q) where
  own := (pidTaken_write q k).ownKept hne
    ⟨rfl, rfl, fun hfalse => by rw [hboot] at hfalse; cases hfalse⟩ fun r _ hr => by
      rw [hparent] at hr
      cases hr
  slot _ := False.elim
  wait := False.elim
  pids := False.elim
  forever := (pidTaken_write q k).forever
    (owed_pidTaken hdead hparent : SlotOwed S c (fun _ => False) q k _)

end PidTaken

/-! ## The functions -/

variable [DecidableEq H] {G : Kernel → Prop}

theorem Triple.acquireOne {lk : Lock} (bare : l.Bare) (hF : Stable S l F) :
    Triple S l F (Process.acquire lk : Code H Unit) (fun _ => l.one lk)
      fun _ k => F k ∧ Acquired l lk k := by
  have triple : Triple S l F (Process.acquire lk : Code H Unit) _ _ :=
    Triple.acquire hF bare.half bare.depth (by simp [bare.locks])
  rwa [bare.cons] at triple

/-- The only lock held, one of a slot, is given back. -/
theorem Triple.releaseSlot (bare : l.Bare) (hF : Stable S (l.one (.proc q)) F)
    (hG : Stable S l G) (hFG : ∀ k, F k → G k)
    (hown : ∀ k, F k → l.ctx = .proc q → k.state q = .running ∧ k.phase q ≠ .armed) :
    Triple S (l.one (.proc q)) F (Process.release (.proc q) : Code H Unit) (fun _ => l)
      fun _ => G := by
  have triple : Triple S { l with locks := .proc q :: l.locks } F
      (Process.release (.proc q) : Code H Unit) (fun _ => l) fun _ => G := by
    refine Triple.releaseLast (by rwa [bare.cons]) hG hFG bare.half bare.depth bare.proc
      fun h w inv on hf => on.releasable inv nofun (fun p hp heq => ?_)
        fun p hp heq harmed => ?_
    · cases heq
      exact (hown _ hf hp).1
    · rcases heq with heq | heq
      · cases heq
      · cases heq
        exact absurd harmed (hown _ hf hp).2
  rwa [bare.cons] at triple

/-- Where the search leaves the hart. -/
def Local.found (l : Local H) : Option Slot → Local H
  | none => l
  | some q => l.one (.proc q)

theorem Triple.allocScan (bare : l.Bare) (hF : Stable S l F)
    (hawake : ∀ k, F k → ∀ p, l.ctx = .proc p → Awake p k) {ps : List Slot} :
    Triple S l F (allocScan ps) l.found
      fun r k => F k ∧ ∀ q, r = some q → Reserved l.ctx q .unused k := by
  induction ps with
  | nil => exact .pure (fun k hf => ⟨hf, nofun⟩) rfl
  | cons q ps ih =>
      have hheld := l.held_one (.proc q)
      have hacquired : Stable S (l.one (.proc q)) fun k => F k ∧ Acquired l (.proc q) k :=
        (hF.one bare _).and (Acquired.stable hheld)
      refine (Triple.acquireOne bare hF).bind fun _ => ?_
      refine Triple.bind (G := fun s k => (F k ∧ Acquired l (.proc q) k) ∧ k.state q = s)
        (.readProc hacquired fun _ _ _ _ hf => ⟨hf, rfl⟩) fun s => ?_
      have hread : Stable S (l.one (.proc q)) fun k =>
          (F k ∧ Acquired l (.proc q) k) ∧ k.state q = s :=
        hacquired.and (stable_state hheld)
      refine .ite (fun hs => ?_) fun hs => ?_
      · subst hs
        have hfree (h : H) (w : World H) (inv : Inv S.img w) (_ : On (l.one (.proc q)) h w)
            (hf : (F w.kernel ∧ Acquired l (.proc q) w.kernel) ∧
              w.kernel.state q = .unused) :
            F w.kernel ∧ Reserved l.ctx q .unused w.kernel :=
          ⟨hf.1.1, hf.2, (inv.data.slot q).unused hf.2, hawake _ hf.1.1⟩
        have hfound (k : Kernel) (hf : F k ∧ Reserved l.ctx q .unused k) :
            F k ∧ ∀ r, some q = some r → Reserved l.ctx r .unused k := by
          refine ⟨hf.1, fun r hr => ?_⟩
          cases hr
          exact hf.2
        exact .invariant hfree (.pure hfound rfl)
      · refine (Triple.releaseSlot bare hread hF (fun k hf => hf.1.1) fun k hf hc => ?_).bind
          fun _ => ih
        exact ⟨hf.1.2.running q hc rfl, (hawake k hf.1.1 q hc).2⟩

theorem Triple.allocpid (bare : l.Bare) (hF : Stable S l F) (hF' : Stable S l F')
    (hpid : ∀ k, Data S.img k → F k → Reserved l.ctx q .unused k → F' (k.pidTaken q))
    (hboot : ∀ k, Data S.img k → F k → k.booted = true ∨ l.ctx = .cpu S.hart) :
    Triple S (l.one (.proc q)) (fun k => F k ∧ Reserved l.ctx q .unused k)
      (Process.allocpid q) (fun _ => l.one (.proc q))
      fun pid k => F' k ∧ (Reserved l.ctx q .unused k ∧ Numbered l.ctx q k) ∧
        pid = pidOf (k.serial q) := by
  have hheld := l.held_one (.proc q)
  have hpre : Stable S (l.one (.proc q)) fun k => F k ∧ Reserved l.ctx q .unused k :=
    (hF.one bare _).and (stable_reserved (l := l.one (.proc q)) hheld)
  have hserial : ∀ pid : CInt, Stable S (l.one (.proc q)) fun k => pid = pidOf (k.serial q) := by
    intro pid k k' frame hk
    rw [hk, (frame.slot q hheld).serial]
  rw [allocpid_eq]
  refine Triple.locked hpre (fun pid => (hF'.one bare _).and
    ((stable_numbered (l := l.one (.proc q)) hheld).and (hserial pid))) bare.half bare.depth
    (by simp [Local.one]) bare.proc nofun nofun ?_
  have hnext : ∀ pid : CInt, Stable S
      { l.one (.proc q) with locks := .pid :: (l.one (.proc q)).locks }
      fun k => pid = k.nextpid := by
    intro pid k k' frame hk
    rw [hk, (frame.pids (.inl (by simp))).nextpid]
  refine Triple.bind (G := fun pid k => (F k ∧ Reserved l.ctx q .unused k) ∧ pid = k.nextpid)
    (.read (hpre.cons _) fun _ _ _ _ hf => ⟨hf, rfl⟩) fun pid => ?_
  refine Triple.bind (.write ((hpre.cons _).and (hnext pid)) fun h w inv on hf => ?_)
    fun _ => .pure (fun _ => id) rfl
  obtain ⟨⟨hf, hreserved⟩, rfl⟩ := hf
  have hdead : ¬ (w.kernel.state q).Live := by
    rw [hreserved.state]
    exact id
  have hserial' : (w.kernel.pidTaken q).serial q = w.kernel.born + 1 := by
    rw [pidTaken_serial, Function.update_self]
  refine ⟨change_pidTaken inv on (.inl (by simp [Local.one])) (.inl (by simp)) hreserved.state
    hreserved.orphan (hboot _ inv.data hf), hpid _ inv.data hf hreserved,
    ⟨⟨hreserved.state, hreserved.orphan, fun p hp => ?_⟩, ?_, ?_, fun p hp => ?_⟩, ?_⟩
  · refine ⟨(hreserved.awake p hp).1, ?_⟩
    rw [pidTaken_phase]
    exact (hreserved.awake p hp).2
  · rw [hserial']
    omega
  · rw [hserial']
    intro hforked
    have hle := inv.data.hist.bound hforked
    omega
  · have hne : p ≠ q := by
      rintro rfl
      exact hreserved.ne id hp
    have hle := inv.data.pids.le p
    rw [hserial', pidTaken_serial, Function.update_of_ne hne]
    omega
  · rw [hserial']
    exact inv.data.pids.next

/-! ## From the slot to the process -/

/-- The slot is ready to become a process. -/
def Claimed (c : Ctx H) (q : Slot) (k : Kernel) : Prop :=
  (Reserved c q .used k ∧ Numbered c q k) ∧ k.pid q = pidOf (k.serial q)

omit [DecidableEq H] in
theorem stable_claimed (hheld : l.held (.proc q)) : Stable S l (Claimed l.ctx q) := by
  refine (stable_numbered hheld).and fun k k' frame hk => ?_
  have kept := frame.slot q hheld
  obtain ⟨parent, hproc⟩ := kept.proc
  rw [kept.serial, ← hk, Kernel.pid, hproc]
  rfl

omit [DecidableEq H] in
/-- A write to a slot without process, seen by the hart itself. -/
theorem Stable.dead {f : Proc → Proc} {g : Shadow → Shadow} (hF : Stable S l F)
    (bare : l.Bare) (hne : l.ctx ≠ .proc q) (hdead : ¬ (k.state q).Live)
    (hparent : k.parent q = none) (hdead' : ¬ (f (k.proc q)).state.Live)
    (hparent' : (f (k.proc q)).parent = none)
    (hphase : (g (k.shadow q)).phase = .armed → k.phase q = .armed) (hf : F k) :
    F ((k.setProc q f).setShadow q g) :=
  hF _ _ ((frame_dead hne hdead hparent hdead' hparent' hphase).weaken id fun lk hlk =>
    bare.held lk hlk) hf

omit [DecidableEq H] in
theorem awake_setProc {f : Proc → Proc} (hne : c ≠ .proc q)
    (hawake : ∀ p, c = .proc p → Awake p k) : ∀ p, c = .proc p → Awake p (k.setProc q f) := by
  intro p hp
  have hpq : p ≠ q := by
    rintro rfl
    exact hne hp
  refine ⟨?_, (hawake p hp).2⟩
  simpa [hpq] using (hawake p hp).1

omit [DecidableEq H] in
theorem Numbered.setProc (hnumbered : Numbered c q k) (f : Proc → Proc) :
    Numbered c q (k.setProc q f) :=
  ⟨hnumbered.serial, hnumbered.unforked, hnumbered.younger⟩

/-- An assignment to fields that nobody reads while the slot is being set up. -/
theorem Triple.writeClaimed {f : Proc → Proc} (bare : l.Bare) (hF : Stable S l F)
    (hstate : ∀ s, (f s).state = s.state) (hparent : ∀ s, (f s).parent = s.parent)
    (hkilled : ∀ s, (f s).killed = s.killed) (hpid : ∀ s, (f s).pid = s.pid) :
    Triple S (l.one (.proc q)) (fun k => F k ∧ Claimed l.ctx q k) (Process.writeProc q f)
      (fun _ => l.one (.proc q)) fun _ k => (F k ∧ Claimed l.ctx q k) ∧
        ∃ s, k.proc q = f s := by
  have hheld := l.held_one (.proc q)
  refine .write ((hF.one bare _).and (stable_claimed (l := l.one (.proc q)) hheld))
    fun h w inv on ⟨hf, ⟨hreserved, hnumbered⟩, hp⟩ => ?_
  have hdead : ¬ (w.kernel.state q).Live := by
    rw [hreserved.state]
    exact id
  have hdead' : ¬ (f (w.kernel.proc q)).state.Live := by
    rw [hstate]
    exact hdead
  have hparent' : (f (w.kernel.proc q)).parent = none := by
    rw [hparent]
    exact hreserved.orphan
  have hctx : l.ctx ≠ .proc q := hreserved.ne id
  have change : Change S (l.one (.proc q)) w ((w.kernel.setProc q f).setShadow q id) :=
    change_dead inv on hheld hdead hreserved.orphan hdead' hparent'
      (by rw [hkilled]; exact (inv.data.slot q).killed) rfl id (.inl (hstate _)) fun hs => by
        rw [hpid]
        exact (inv.data.slot q).used (by rwa [hstate] at hs)
  have hF' : F ((w.kernel.setProc q f).setShadow q id) :=
    hF.dead bare hctx hdead hreserved.orphan hdead' hparent' id hf
  rw [setShadow_id] at change hF'
  refine ⟨change, ⟨hF', ⟨⟨?_, ?_, awake_setProc hctx hreserved.awake⟩,
      hnumbered.setProc _⟩, ?_⟩,
    w.kernel.proc q, by simp⟩
  · simpa [hstate] using hreserved.state
  · simpa using hparent'
  · simpa [hpid] using hp

/-- `free_process`: pages go back, then the fields are cleared at once. -/
theorem Triple.freeProcess {reaper : Option Slot} (hF : Stable S l F)
    (hhalf : l.half = none) (hdepth : l.depth = 0) (hkmem : .kmem ∉ l.locks)
    (hproc : l.proc = l.ctx.slot)
    (hframe : ∀ h w, Inv S.img w → On l h w → F w.kernel →
      Change S l w (w.kernel.setProc q fun s => { s with trapframe := 0 }) ∧
        F (w.kernel.setProc q fun s => { s with trapframe := 0 }))
    (hlast : ∀ h w, Inv S.img w → On l h w → F w.kernel →
      Change S l w (w.kernel.cleared q reaper) ∧ G (w.kernel.cleared q reaper)) :
    Triple S l F (Process.freeProcess S.img q reaper : Code H Unit) (fun _ => l)
      fun _ => G := by
  have hread : ∀ {γ : Type} (f : Proc → γ),
      Triple S l F (Process.readProc q f) (fun _ => l) fun _ => F :=
    fun f => .readProc hF fun _ _ _ _ => id
  have last : Triple S l F (Process.write (Kernel.cleared q reaper) : Code H Unit)
      (fun _ => l) fun _ => G := .write hF hlast
  have pages : Triple S l F (do
      Process.writeProc q fun s => { s with trapframe := 0 }
      let pagetable ← Process.readProc q (·.pagetable)
      if pagetable ≠ 0 then
        Process.liftMem (procFreepagetable S.img pagetable (← Process.readProc q (·.sz)))
      Process.write (Kernel.cleared q reaper) : Code H Unit) (fun _ => l) fun _ => G := by
    refine Triple.bind (.write hF hframe) fun _ => (hread _).bind fun pagetable => ?_
    refine .ite (fun _ => ?_) fun _ => last
    exact (hread _).bind fun sz => (Triple.liftMem (lawful_procFreepagetable _ _ _) hF hhalf
      hdepth hkmem hproc).bind fun _ => last
  refine (hread _).bind fun trapframe => .ite (fun _ => ?_) fun _ => pages
  exact (Triple.liftMem (lawful_freePage _ _) hF hhalf hdepth hkmem hproc).bind fun _ => pages

/-- The slot as `alloc_process` answers it. -/
def Prepared (S : Setting H) (c : Ctx H) (q : Slot) (k : Kernel) : Prop :=
  Claimed c q k ∧ (k.context q).ra = S.img.forkret

omit [DecidableEq H] in
theorem stable_prepared (hheld : l.held (.proc q)) : Stable S l (Prepared S l.ctx q) := by
  refine (stable_claimed hheld).and fun k k' frame hk => ?_
  obtain ⟨parent, hproc⟩ := (frame.slot q hheld).proc
  rw [← hk, Kernel.context, hproc]
  rfl

/-- The two ways out when there is no page: the slot is unused again. -/
theorem Triple.allocFails (bare : l.Bare) (hF : Stable S l F) :
    Triple S (l.one (.proc q)) (fun k => F k ∧ Claimed l.ctx q k) (do
        Process.freeProcess S.img q none
        Process.release (.proc q)
        return none : Code H (Option Slot)) l.found
      fun r k => F k ∧ ∀ q', r = some q' → Prepared S l.ctx q' k := by
  have hheld := l.held_one (.proc q)
  have hclaimed : Stable S (l.one (.proc q)) fun k => F k ∧ Claimed l.ctx q k :=
    (hF.one bare _).and (stable_claimed (l := l.one (.proc q)) hheld)
  have hfreed : Stable S (l.one (.proc q)) fun k => F k ∧ Reserved l.ctx q .unused k :=
    (hF.one bare _).and (stable_reserved (l := l.one (.proc q)) hheld)
  refine (Triple.freeProcess hclaimed bare.half bare.depth (by simp [Local.one]) bare.proc
    (fun h w inv on hf => ?_) fun h w inv on ⟨hf, ⟨hreserved, hnumbered⟩, hp⟩ => ?_).bind
    fun _ => (Triple.releaseSlot bare hfreed hF (fun k hk => hk.1)
      fun k hk hc => absurd hc (hk.2.ne id)).bind fun _ => .pure (fun k hf => ⟨hf, nofun⟩) rfl
  · obtain ⟨hf, ⟨hreserved, hnumbered⟩, hp⟩ := hf
    have hdead : ¬ (w.kernel.state q).Live := by
      rw [hreserved.state]
      exact id
    have hctx : l.ctx ≠ .proc q := hreserved.ne id
    have change : Change S (l.one (.proc q)) w ((w.kernel.setProc q fun s =>
        { s with trapframe := 0 }).setShadow q id) :=
      change_dead inv on hheld hdead hreserved.orphan hdead hreserved.orphan
        (inv.data.slot q).killed rfl id (.inl rfl) (inv.data.slot q).used
    have hF' : F ((w.kernel.setProc q fun s => { s with trapframe := 0 }).setShadow q id) :=
      hF.dead bare hctx hdead hreserved.orphan hdead hreserved.orphan id hf
    rw [setShadow_id] at change hF'
    refine ⟨change, hF', ⟨⟨?_, ?_, awake_setProc hctx hreserved.awake⟩,
      hnumbered.setProc _⟩, ?_⟩
    · simpa using hreserved.state
    · simpa using hreserved.orphan
    · simpa using hp
  · have hdead : ¬ (w.kernel.state q).Live := by
      rw [hreserved.state]
      exact id
    have hctx : l.ctx ≠ .proc q := hreserved.ne id
    have hmove : StateMove l.ctx q w.kernel (w.kernel.state q) .unused := by
      rw [hreserved.state]
      exact .free
    have change : Change S (l.one (.proc q)) w ((w.kernel.setProc q Proc.cleared).setShadow q
        fun s => { s with phase := .out }) :=
      change_dead inv on hheld hdead hreserved.orphan id rfl rfl rfl nofun (.inr hmove) nofun
    have hF' : F ((w.kernel.setProc q Proc.cleared).setShadow q
        fun s => { s with phase := .out }) :=
      hF.dead bare hctx hdead hreserved.orphan id rfl nofun hf
    refine ⟨change, hF', ⟨?_, ?_, fun p hc => ?_⟩⟩
    · simp [Kernel.cleared, Proc.cleared]
    · simp [Kernel.cleared, Proc.cleared]
    · have hpq : p ≠ q := by
        rintro rfl
        exact hctx hc
      have hawake := hreserved.awake p hc
      refine ⟨?_, ?_⟩
      · simpa [Kernel.cleared, hpq] using hawake.1
      · simpa [Kernel.cleared, hpq] using hawake.2

theorem Triple.allocFound (bare : l.Bare) (hF : Stable S l F) (hF' : Stable S l F')
    (hpid : ∀ k, Data S.img k → F k → Reserved l.ctx q .unused k → F' (k.pidTaken q))
    (hboot : ∀ k, Data S.img k → F k → k.booted = true ∨ l.ctx = .cpu S.hart) :
    Triple S (l.one (.proc q)) (fun k => F k ∧ Reserved l.ctx q .unused k)
      (Process.allocFound S.img q) l.found
      fun r k => F' k ∧ ∀ q', r = some q' → Prepared S l.ctx q' k := by
  have hheld := l.held_one (.proc q)
  have hclaimed : Stable S (l.one (.proc q)) fun k => F' k ∧ Claimed l.ctx q k :=
    (hF'.one bare _).and (stable_claimed (l := l.one (.proc q)) hheld)
  have hlock : ∀ {lk : Lock}, (∀ p, lk ≠ .proc p) → lk ∉ (l.one (.proc q)).locks := by
    intro lk hlk
    simpa [Local.one] using hlk q
  refine (Triple.allocpid bare hF hF' hpid hboot).bind fun pid => ?_
  refine Triple.bind (G := fun _ k => F' k ∧ Claimed l.ctx q k)
    (.write ?_ fun h w inv on hf => ?_) fun _ => ?_
  · refine (hF'.one bare _).and ((stable_numbered (l := l.one (.proc q)) hheld).and ?_)
    intro k k' frame hk
    rw [hk, (frame.slot q hheld).serial]
  · obtain ⟨hf, ⟨hreserved, hnumbered⟩, rfl⟩ := hf
    have hdead : ¬ (w.kernel.state q).Live := by
      rw [hreserved.state]
      exact id
    have hctx : l.ctx ≠ .proc q := hreserved.ne id
    have hmove : StateMove l.ctx q w.kernel (w.kernel.state q) .used := by
      rw [hreserved.state]
      exact .alloc
    have change : Change S (l.one (.proc q)) w ((w.kernel.setProc q fun s =>
        { s with pid := pidOf (w.kernel.serial q), state := .used }).setShadow q id) :=
      change_dead inv on hheld hdead hreserved.orphan id hreserved.orphan
        (inv.data.slot q).killed rfl id (.inr hmove) fun _ => ⟨hnumbered.serial, rfl⟩
    have hF'' : F' ((w.kernel.setProc q fun s =>
        { s with pid := pidOf (w.kernel.serial q), state := .used }).setShadow q id) :=
      hF'.dead bare hctx hdead hreserved.orphan id hreserved.orphan id hf
    rw [setShadow_id] at change hF''
    refine ⟨change, hF'', ⟨⟨?_, ?_, awake_setProc hctx hreserved.awake⟩,
      hnumbered.setProc _⟩, ?_⟩
    · simp
    · simpa using hreserved.orphan
    · simp
  refine (Triple.printf hclaimed bare.half bare.depth (hlock nofun) bare.proc _).bind
    fun _ => ?_
  refine (Triple.liftMem lawful_allocPage hclaimed bare.half bare.depth (hlock nofun)
    bare.proc).bind fun trapframe => ?_
  refine Triple.bind (Triple.mono (Triple.writeClaimed bare hF' (fun _ => rfl) (fun _ => rfl)
    (fun _ => rfl) fun _ => rfl) (fun _ => id) fun _ k hk => hk.1) fun _ => ?_
  refine .ite (fun _ => Triple.allocFails bare hF') fun _ => ?_
  refine (Triple.liftMem (lawful_procPagetable _) hclaimed bare.half bare.depth
    (hlock nofun) bare.proc).bind fun pagetable => ?_
  refine Triple.bind (Triple.mono (Triple.writeClaimed bare hF' (fun _ => rfl) (fun _ => rfl)
    (fun _ => rfl) fun _ => rfl) (fun _ => id) fun _ k hk => hk.1) fun _ => ?_
  refine .ite (fun _ => Triple.allocFails bare hF') fun _ => ?_
  refine Triple.bind (Triple.writeClaimed bare hF' (fun _ => rfl) (fun _ => rfl)
    (fun _ => rfl) fun _ => rfl) fun _ => .pure (fun k hk => ⟨hk.1.1, ?_⟩) rfl
  rintro r hr
  cases hr
  obtain ⟨s, hs⟩ := hk.2
  exact ⟨hk.1.2, by rw [Kernel.context, hs]⟩

theorem Triple.allocProcess (bare : l.Bare) (hF : Stable S l F) (hF' : Stable S l F')
    (hawake : ∀ k, F k → ∀ p, l.ctx = .proc p → Awake p k)
    (hpid : ∀ k q, Data S.img k → F k → Reserved l.ctx q .unused k →
      F' (k.pidTaken q))
    (hboot : ∀ k, Data S.img k → F k → k.booted = true ∨ l.ctx = .cpu S.hart) :
    Triple S l F (Process.allocProcess S.img) l.found
      fun r k => (F k ∨ F' k) ∧ ∀ q, r = some q → F' k ∧ Prepared S l.ctx q k := by
  refine (Triple.allocScan bare hF hawake).bind fun r => ?_
  cases r with
  | none => exact .pure (fun k hk => ⟨.inl hk.1, nofun⟩) rfl
  | some q =>
      exact (Triple.allocFound bare hF hF' (hpid · q) hboot).mono
        (fun k hk => ⟨hk.1, hk.2 q rfl⟩)
        fun r k hk => ⟨.inr hk.1, fun q' hr => ⟨hk.1, hk.2 q' hr⟩⟩

end Xv6Kernel.Process
