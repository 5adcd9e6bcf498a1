import Xv6Kernel.Process.Invariant

/-!
# What harts leave alone

`Frame` is what a context relies on while it holds a set of locks, `Others` what
a write by a context owes to everybody else.  Both are made of the same parts:
a process's own data, a slot whose lock is held, what `wait_lock` protects, and
what never changes again.
-/

namespace Xv6Kernel.Process

open Xv6Kernel.Foundation Xv6Kernel.Mm

/-- What the results are about: a kernel image, the hart that runs `main`, and
whether the window of `forkret` is free of timer interrupts. -/
structure Setting (H : Type) where
  img : Image
  hart : H
  quiet : Bool

variable {H : Type} (S : Setting H)

/-! ## The parts -/

/-- What nobody but `p` changes of an alive process `p`.  Its context is kept
while it does not run, and in the window of `forkret` if that is quiet. -/
structure KeptData (full : Prop) (p : Slot) (k k' : Kernel) : Prop where
  alive : (k'.state p).Alive
  shadow : ∃ phase, k'.shadow p = { k.shadow p with phase } ∧
    (phase = k.phase p ∨ k.phase p = .armed ∧ phase = .woken)
  armed : k.phase p = .armed → k.state p = .running →
    k'.phase p = .armed ∧ k'.state p = .running
  pid : k'.pid p = k.pid p
  context : (full ∨ S.quiet = true ∧ (k.shadow p).window = true) →
    k'.context p = k.context p
  children : ∀ q, k.parent q = some p →
    k'.parent q = some p ∧ k'.serial q = k.serial q ∧ k'.pid q = k.pid q
  initproc : k'.initproc = k.initproc

/-- What the holder of `p->lock` keeps from changing. -/
structure SlotKept (p : Slot) (k k' : Kernel) : Prop where
  proc : ∃ parent, k'.proc p = { k.proc p with parent }
  orphan : k.parent p = none → k'.parent p = none
  serial : k'.serial p = k.serial p
  creator : k'.creator p = k.creator p
  entry : (k'.shadow p).entry = (k.shadow p).entry
  still : k.state p ≠ .running → k'.shadow p = k.shadow p
  unforked : ¬ HasForked k.log (k.serial p) → ¬ HasForked k'.log (k.serial p)

/-- What the holder of `wait_lock` keeps from changing. -/
structure WaitKept (k k' : Kernel) : Prop where
  parent : k'.parent = k.parent
  zombie : ∀ q, k'.state q = .zombie ↔ k.state q = .zombie
  armed : ∀ q, k'.phase q = .armed → k.phase q = .armed

/-- What the holder of `pid_lock` keeps from changing. -/
structure PidsKept (k k' : Kernel) : Prop where
  nextpid : k'.nextpid = k.nextpid
  born : k'.born = k.born

/-- What changes for nobody: the past, and processes without a parent. -/
structure Forever (k k' : Kernel) : Prop where
  log : k.log <:+ k'.log
  orphan : ∀ q, (k.state q).Live → k.creator q = none →
    (k'.state q).Live ∧ k'.creator q = none ∧ k'.serial q = k.serial q ∧
      k'.pid q = k.pid q

/-- What is set up before the other harts have anything to run. -/
structure BootKept (k k' : Kernel) : Prop where
  booted : k'.booted = k.booted
  initproc : k'.initproc = k.initproc
  born : k.booted = false → k'.born = k.born

/-! ## They are preorders -/

section Preorder

variable {S} {full : Prop} {p : Slot} {k k' k'' : Kernel}

theorem KeptData.refl (h : (k.state p).Alive) : KeptData S full p k k where
  alive := h
  shadow := ⟨k.phase p, rfl, .inl rfl⟩
  armed harmed hrunning := ⟨harmed, hrunning⟩
  pid := rfl
  context _ := rfl
  children _ hq := ⟨hq, rfl, rfl⟩
  initproc := rfl

theorem KeptData.trans (h : KeptData S full p k k') (h' : KeptData S full p k' k'') :
    KeptData S full p k k'' where
  alive := h'.alive
  shadow := by
    obtain ⟨phase, heq, hphase⟩ := h.shadow
    obtain ⟨phase', heq', hphase'⟩ := h'.shadow
    have hk' : k'.phase p = phase := by rw [Kernel.phase, heq]
    rw [hk'] at hphase'
    refine ⟨phase', by rw [heq', heq], ?_⟩
    rcases hphase' with rfl | ⟨rfl, rfl⟩
    · exact hphase
    · rcases hphase with h | ⟨-, h⟩
      · exact .inr ⟨h.symm, rfl⟩
      · cases h
  armed harmed hrunning := by
    obtain ⟨harmed', hrunning'⟩ := h.armed harmed hrunning
    exact h'.armed harmed' hrunning'
  pid := h'.pid.trans h.pid
  context hfull := by
    obtain ⟨phase, heq, -⟩ := h.shadow
    refine (h'.context ?_).trans (h.context hfull)
    rwa [heq]
  children q hq := by
    obtain ⟨hq', hserial, hpid⟩ := h.children q hq
    obtain ⟨hq'', hserial', hpid'⟩ := h'.children q hq'
    exact ⟨hq'', hserial'.trans hserial, hpid'.trans hpid⟩
  initproc := h'.initproc.trans h.initproc

theorem KeptData.weaken {full' : Prop} (h : KeptData S full p k k')
    (himp : full' → full) : KeptData S full' p k k' :=
  { h with context := fun hfull => h.context (hfull.imp himp id) }

theorem SlotKept.refl : SlotKept p k k :=
  ⟨⟨k.parent p, rfl⟩, id, rfl, rfl, rfl, fun _ => rfl, id⟩

theorem SlotKept.state (h : SlotKept p k k') : k'.state p = k.state p := by
  obtain ⟨parent, heq⟩ := h.proc
  rw [Kernel.state, heq]
  rfl

theorem SlotKept.trans (h : SlotKept p k k') (h' : SlotKept p k' k'') :
    SlotKept p k k'' where
  proc := by
    obtain ⟨parent, heq⟩ := h.proc
    obtain ⟨parent', heq'⟩ := h'.proc
    exact ⟨parent', by rw [heq', heq]⟩
  orphan hnone := h'.orphan (h.orphan hnone)
  serial := h'.serial.trans h.serial
  creator := h'.creator.trans h.creator
  entry := h'.entry.trans h.entry
  still hne := (h'.still (h.state ▸ hne)).trans (h.still hne)
  unforked hlog := h.serial ▸ h'.unforked (h.serial.symm ▸ h.unforked hlog)

theorem WaitKept.refl : WaitKept k k := ⟨rfl, fun _ => Iff.rfl, fun _ => id⟩

theorem WaitKept.trans (h : WaitKept k k') (h' : WaitKept k' k'') :
    WaitKept k k'' where
  parent := h'.parent.trans h.parent
  zombie q := (h'.zombie q).trans (h.zombie q)
  armed q hq := h.armed q (h'.armed q hq)

theorem PidsKept.refl : PidsKept k k := ⟨rfl, rfl⟩

theorem PidsKept.trans (h : PidsKept k k') (h' : PidsKept k' k'') : PidsKept k k'' :=
  ⟨h'.nextpid.trans h.nextpid, h'.born.trans h.born⟩

theorem Forever.refl : Forever k k :=
  ⟨List.suffix_rfl, fun _ hlive hcreator => ⟨hlive, hcreator, rfl, rfl⟩⟩

theorem Forever.trans (h : Forever k k') (h' : Forever k' k'') : Forever k k'' where
  log := h.log.trans h'.log
  orphan q hlive hcreator := by
    obtain ⟨hlive', hcreator', hserial, hpid⟩ := h.orphan q hlive hcreator
    obtain ⟨hlive'', hcreator'', hserial', hpid'⟩ := h'.orphan q hlive' hcreator'
    exact ⟨hlive'', hcreator'', hserial'.trans hserial, hpid'.trans hpid⟩

theorem BootKept.refl : BootKept k k := ⟨rfl, rfl, fun _ => rfl⟩

theorem BootKept.same (hbooted : k'.booted = k.booted) (hinit : k'.initproc = k.initproc)
    (hborn : k'.born = k.born) : BootKept k k' :=
  ⟨hbooted, hinit, fun _ => hborn⟩

theorem BootKept.trans (h : BootKept k k') (h' : BootKept k' k'') : BootKept k k'' :=
  ⟨h'.booted.trans h.booted, h'.initproc.trans h.initproc,
    fun hb => (h'.born (h.booted.trans hb)).trans (h.born hb)⟩

end Preorder

/-! ## What a context relies on -/

/-- What a context keeps while it runs. -/
def OwnKept (full : Prop) (c : Ctx H) (k k' : Kernel) : Prop :=
  match c with
  | .proc p => (k.state p).Alive → KeptData S full p k k'
  | .cpu h => h = S.hart → BootKept k k'

/-- What may happen to the data while `c` runs and `held` are its locks. -/
structure Frame (full : Prop) (c : Ctx H) (held : Lock → Prop) (k k' : Kernel) :
    Prop where
  own : OwnKept S full c k k'
  slot : ∀ p, held (.proc p) → SlotKept p k k'
  wait : held .wait → WaitKept k k'
  pids : held .pid → PidsKept k k'
  forever : Forever k k'

/-- What a write by `c` with the locks `held` must leave alone. -/
structure Others (c : Ctx H) (held : Lock → Prop) (k k' : Kernel) : Prop where
  own : ∀ c', c' ≠ c → OwnKept S True c' k k'
  reborn : ∀ p, c ≠ .proc p → ¬ (k.state p).Alive → (k'.state p).Alive →
    (k'.context p).ra = S.img.forkret
  slot : ∀ p, ¬ held (.proc p) → SlotKept p k k'
  wait : ¬ held .wait → WaitKept k k'
  pids : ¬ held .pid → PidsKept k k'
  forever : Forever k k'

section Lemmas

variable {S} {full : Prop} {c : Ctx H} {held : Lock → Prop} {k k' k'' : Kernel}

theorem OwnKept.refl : OwnKept S full c k k := by
  cases c with
  | proc p => exact KeptData.refl
  | cpu h => exact fun _ => .refl

theorem OwnKept.trans (h : OwnKept S full c k k') (h' : OwnKept S full c k' k'') :
    OwnKept S full c k k'' := by
  cases c with
  | proc p => exact fun halive => (h halive).trans (h' (h halive).alive)
  | cpu h₀ => exact fun heq => (h heq).trans (h' heq)

theorem OwnKept.weaken {full' : Prop} (h : OwnKept S full c k k')
    (himp : full' → full) : OwnKept S full' c k k' := by
  cases c with
  | proc p => exact fun halive => (h halive).weaken himp
  | cpu h₀ => exact h

theorem Frame.refl : Frame S full c held k k where
  own := .refl
  slot _ _ := .refl
  wait _ := .refl
  pids _ := .refl
  forever := .refl

theorem Frame.trans (h : Frame S full c held k k') (h' : Frame S full c held k' k'') :
    Frame S full c held k k'' where
  own := h.own.trans h'.own
  slot p hp := (h.slot p hp).trans (h'.slot p hp)
  wait hp := (h.wait hp).trans (h'.wait hp)
  pids hp := (h.pids hp).trans (h'.pids hp)
  forever := h.forever.trans h'.forever

theorem Frame.weaken {full' : Prop} {held' : Lock → Prop}
    (h : Frame S full c held k k') (himp : full' → full)
    (hheld : ∀ lk, held' lk → held lk) : Frame S full' c held' k k' where
  own := h.own.weaken himp
  slot p hp := h.slot p (hheld _ hp)
  wait hp := h.wait (hheld _ hp)
  pids hp := h.pids (hheld _ hp)
  forever := h.forever

theorem Others.refl : Others S c held k k where
  own _ _ := .refl
  reborn _ _ hdead halive := absurd halive hdead
  slot _ _ := .refl
  wait _ := .refl
  pids _ := .refl
  forever := .refl

/-- A write of one context is a frame for every other one. -/
theorem Others.frame (h : Others S c held k k') {c' : Ctx H} {held' : Lock → Prop}
    (hne : c' ≠ c) (hdisjoint : ∀ lk, held' lk → ¬ held lk) :
    Frame S True c' held' k k' where
  own := h.own c' hne
  slot p hp := h.slot p (hdisjoint _ hp)
  wait hp := h.wait (hdisjoint _ hp)
  pids hp := h.pids (hdisjoint _ hp)
  forever := h.forever

end Lemmas

end Xv6Kernel.Process
