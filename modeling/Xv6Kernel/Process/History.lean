import Xv6Kernel.Process.Frame

/-!
# How the kernel's writes keep the parts of the invariant

One lemma for each kind of write and each part of `Data` it touches.
-/

namespace Xv6Kernel.Process

open Xv6Kernel.Foundation Xv6Kernel.Mm

/-- Two states of a slot between which no process is born, dies or is freed. -/
structure Alike (s s' : ProcState) : Prop where
  alive : s'.Alive ↔ s.Alive
  zombie : s' = .zombie ↔ s = .zombie

theorem Alike.live {s s' : ProcState} (h : Alike s s') : s'.Live ↔ s.Live := by
  rw [ProcState.live_iff, ProcState.live_iff, h.alive, h.zombie]

theorem Alike.refl (s : ProcState) : Alike s s := ⟨.rfl, .rfl⟩

theorem Alike.of_alive {s s' : ProcState} (h : s.Alive) (h' : s'.Alive) :
    Alike s s' := by
  cases s <;> cases s' <;> simp_all [Alike.refl] <;> exact ⟨by simp, by simp⟩

theorem Alike.of_not_live {s s' : ProcState} (h : ¬ s.Live) (h' : ¬ s'.Live) :
    Alike s s' := by
  cases s <;> cases s' <;> simp_all [Alike.refl] <;> exact ⟨by simp, by simp⟩

theorem alike_update {state : Slot → ProcState} {p : Slot} {s : ProcState}
    (h : Alike (state p) s) (q : Slot) :
    Alike (state q) (Function.update state p s q) := by
  by_cases heq : q = p
  · subst heq
    simpa using h
  · simpa [heq] using .refl _

section

variable {state state' : Slot → ProcState} {parent parent' : Slot → Option Slot}
  {xstate xstate' : Slot → CInt} {initproc : Option Slot} {booted : Bool}
  {serial serial' : Slot → Nat} {pid pid' : Slot → CInt} {born : Nat} {nextpid : CInt}
  {creator creator' : Slot → Option Nat} {phase phase' : Slot → Phase}
  {log : List Event} {p : Slot}

/-! ## The tree of processes -/

namespace Tree

theorem alike (tree : Tree state parent initproc booted)
    (h : ∀ q, Alike (state q) (state' q)) : Tree state' parent initproc booted where
  parent_alive hq := (h _).alive.mpr (tree.parent_alive hq)
  unbooted hb q hlive := tree.unbooted hb q ((h q).live.mp hlive)
  init hb := by
    obtain ⟨i, hi, halive⟩ := tree.init hb
    exact ⟨i, hi, (h i).alive.mpr halive⟩

theorem setParent (tree : Tree state parent initproc booted) {father : Option Slot}
    (h : ∀ i, father = some i → (state i).Alive) :
    Tree state (Function.update parent p father) initproc booted where
  parent_alive := by
    intro q i hq
    by_cases heq : q = p
    · subst heq
      exact h i (by simpa using hq)
    · exact tree.parent_alive (by simpa [heq] using hq)
  unbooted := tree.unbooted
  init := tree.init

theorem die (tree : Tree state parent initproc booted) (hlive : (state p).Live)
    (hchildren : ∀ q, parent q ≠ some p) (hinit : initproc ≠ some p) :
    Tree (Function.update state p .zombie) parent initproc booted where
  parent_alive := by
    intro q i hq
    have hne : i ≠ p := by
      rintro rfl
      exact hchildren q hq
    simpa [hne] using tree.parent_alive hq
  unbooted hb := absurd hlive (tree.unbooted hb p)
  init hb := by
    obtain ⟨i, hi, halive⟩ := tree.init hb
    have hne : i ≠ p := by
      rintro rfl
      exact hinit hi
    exact ⟨i, hi, by simpa [hne] using halive⟩

/-- A slot with no running process is given back. -/
theorem free (tree : Tree state parent initproc booted) (hdead : ¬ (state p).Alive) :
    Tree (Function.update state p .unused) (Function.update parent p none) initproc
      booted where
  parent_alive := by
    intro q i hq
    have hne : q ≠ p := by
      rintro rfl
      simp at hq
    have halive := tree.parent_alive (by simpa [hne] using hq)
    have hne' : i ≠ p := by
      rintro rfl
      exact hdead halive
    simpa [hne'] using halive
  unbooted hb q := by
    by_cases heq : q = p
    · subst heq
      simp
    · simpa [heq] using tree.unbooted hb q
  init hb := by
    obtain ⟨i, hi, halive⟩ := tree.init hb
    have hne : i ≠ p := by
      rintro rfl
      exact hdead halive
    exact ⟨i, hi, by simpa [hne] using halive⟩

theorem fork (tree : Tree state parent initproc booted) {booted' : Bool}
    (hbooted : booted = true ∧ booted' = true ∨ initproc = some p ∧ booted' = true) :
    Tree (Function.update state p .runnable) parent initproc booted' := by
  have hkeep : ∀ {i}, (state i).Alive →
      (Function.update state p ProcState.runnable i).Alive := by
    intro i halive
    by_cases heq : i = p
    · subst heq
      simp
    · simpa [heq] using halive
  refine ⟨fun hq => hkeep (tree.parent_alive hq), fun hb => ?_, fun _ => ?_⟩
  · rcases hbooted with ⟨-, h⟩ | ⟨-, h⟩ <;> simp [h] at hb
  · rcases hbooted with ⟨h, -⟩ | ⟨h, -⟩
    · obtain ⟨i, hi, halive⟩ := tree.init h
      exact ⟨i, hi, hkeep halive⟩
    · exact ⟨p, h, by simp⟩

end Tree

/-! ## Pids -/

namespace Pids

theorem mono (pids : Pids state serial pid born nextpid)
    (h : ∀ q, (state' q).Live → (state q).Live ∧ pid' q = pid q) :
    Pids state' serial pid' born nextpid where
  next := pids.next
  le := pids.le
  inj := pids.inj
  pos hlive := pids.pos (h _ hlive).1
  pid hlive := (h _ hlive).2.trans (pids.pid (h _ hlive).1)

/-- A slot without a process gets the next number. -/
theorem alloc (pids : Pids state serial pid born nextpid) (hdead : ¬ (state p).Live) :
    Pids state (Function.update serial p (born + 1)) pid (born + 1) (nextpid + 1) where
  next := by
    rw [pids.next]
    simp [pidOf, BitVec.ofNat_add, add_assoc]
  le q := by
    by_cases heq : q = p
    · subst heq
      simp
    · simpa [heq] using Nat.le_succ_of_le (pids.le q)
  inj := by
    intro q r hqr hne
    by_cases hq : q = p <;> by_cases hr : r = p
    · exact hq.trans hr.symm
    · subst hq
      have := pids.le r
      simp [hr] at hqr
      omega
    · subst hr
      have := pids.le q
      simp [hq] at hqr
      omega
    · exact pids.inj (by simpa [hq, hr] using hqr) (by simpa [hq] using hne)
  pos := by
    intro q hlive
    have hne : q ≠ p := by
      rintro rfl
      exact hdead hlive
    simpa [hne] using pids.pos hlive
  pid := by
    intro q hlive
    have hne : q ≠ p := by
      rintro rfl
      exact hdead hlive
    simpa [hne] using pids.pid hlive

theorem fork (pids : Pids state serial pid born nextpid) {s : ProcState}
    (hserial : serial p ≠ 0) (hpid : pid p = pidOf (serial p)) :
    Pids (Function.update state p s) serial pid born nextpid where
  next := pids.next
  le := pids.le
  inj := pids.inj
  pos := by
    intro q hlive
    by_cases heq : q = p
    · subst heq
      exact hserial
    · exact pids.pos (by simpa [heq] using hlive)
  pid := by
    intro q hlive
    by_cases heq : q = p
    · subst heq
      exact hpid
    · exact pids.pid (by simpa [heq] using hlive)

end Pids

/-! ## The log -/

section Log

variable {event : Event} {who child : Nat} {init : Option Nat}

theorem HasExited.cons (h : HasExited log who) : HasExited (event :: log) who := by
  obtain ⟨pid, status, hmem⟩ := h
  exact ⟨pid, status, List.mem_cons_of_mem _ hmem⟩

theorem Inherits.cons (h : Inherits init log who child) :
    Inherits init (event :: log) who child := by
  obtain ⟨c, hmem, hc⟩ := h
  exact ⟨c, List.mem_cons_of_mem _ hmem, hc.imp id fun ⟨hi, he⟩ => ⟨hi, he.cons⟩⟩

/-- What exited or was waited for had been created. -/
theorem LogOk.forked (ok : LogOk init log) :
    (∀ s, HasExited log s → HasForked log s) ∧
      ∀ s, HasWaited log s → HasForked log s := by
  induction log with
  | nil => exact ⟨nofun, nofun⟩
  | cons event log ih =>
      obtain ⟨hevent, ok⟩ := ok
      obtain ⟨hexited, hwaited⟩ := ih ok
      have hcons : ∀ {s}, HasForked log s → HasForked (event :: log) s :=
        fun ⟨c, hmem⟩ => ⟨c, List.mem_cons_of_mem _ hmem⟩
      refine ⟨fun s ⟨pid, status, hmem⟩ => ?_, fun s ⟨who, pid, stored, hmem⟩ => ?_⟩
      · rcases List.mem_cons.mp hmem with rfl | hmem
        · exact hcons hevent.2.1
        · exact hcons (hexited s ⟨pid, status, hmem⟩)
      · rcases List.mem_cons.mp hmem with rfl | hmem
        · obtain ⟨c, hc, -⟩ := hevent.2.2.1
          exact hcons ⟨_, hc⟩
        · exact hcons (hwaited s ⟨who, pid, stored, hmem⟩)

/-- An event that is no fork, exit or wait. -/
def Event.Mute : Event → Prop
  | .created .. | .childless .. => True
  | .forked .. | .exited .. | .waited .. => False

theorem Event.Mute.hasExited (h : event.Mute) :
    HasExited (event :: log) who ↔ HasExited log who := by
  cases event <;> simp_all [HasExited, Event.Mute]

theorem Event.Mute.hasWaited (h : event.Mute) :
    HasWaited (event :: log) who ↔ HasWaited log who := by
  cases event <;> simp_all [HasWaited, Event.Mute]

theorem Event.Mute.hasForked (h : event.Mute) :
    HasForked (event :: log) who ↔ HasForked log who := by
  cases event <;> simp_all [HasForked, Event.Mute]

end Log

/-! ## The history -/

namespace Hist

variable (hist : Hist state parent xstate initproc serial creator phase born log)
include hist

theorem alike (h : ∀ q, Alike (state q) (state' q)) :
    Hist state' parent xstate initproc serial creator phase born log where
  ok := hist.ok
  bound := hist.bound
  forked hlive := hist.forked ((h _).live.mp hlive)
  waited hlive := hist.waited ((h _).live.mp hlive)
  running hlive := hist.running ((h _).live.mp hlive)
  exiting hlive := hist.exiting ((h _).live.mp hlive)
  zombie hz := hist.zombie ((h _).zombie.mp hz)
  orphan hlive := hist.orphan ((h _).live.mp hlive)
  parent hlive := hist.parent ((h _).live.mp hlive)
  reaped halive hphase := by
    obtain ⟨hexit, hwait, hlive, hinherit⟩ := hist.reaped ((h _).alive.mp halive) hphase
    exact ⟨hexit, hwait, fun q hq => hlive q ((h q).live.mp hq), hinherit⟩
  reaped_inj halive halive' :=
    hist.reaped_inj ((h _).alive.mp halive) ((h _).alive.mp halive')

/-- What is written to a slot without a process does not count. -/
theorem dead (hdead : ¬ (state p).Live) (hparent : ∀ q, q ≠ p → parent' q = parent q)
    (hxstate : ∀ q, q ≠ p → xstate' q = xstate q)
    (hcreator : ∀ q, q ≠ p → creator' q = creator q)
    (hphase : ∀ q, q ≠ p → phase' q = phase q) :
    Hist state parent' xstate' initproc serial creator' phase' born log := by
  have hne : ∀ {q}, (state q).Live → q ≠ p := by
    rintro q hlive rfl
    exact hdead hlive
  exact
    { ok := hist.ok
      bound := hist.bound
      forked := fun hlive => by
        rw [hcreator _ (hne hlive)]
        exact hist.forked hlive
      waited := hist.waited
      running := fun hlive h => hist.running hlive (by rwa [← hphase _ (hne hlive)])
      exiting := fun hlive h => hist.exiting hlive (by rwa [← hphase _ (hne hlive)])
      zombie := fun {q} hz => by
        have hq : q ≠ p := hne (by rw [hz]; trivial)
        rw [hphase q hq, hxstate q hq]
        exact hist.zombie hz
      orphan := fun hlive h => by
        rw [hparent _ (hne hlive)]
        exact hist.orphan hlive (by rwa [← hcreator _ (hne hlive)])
      parent := fun hlive h => by
        rw [hparent _ (hne hlive)]
        exact hist.parent hlive (by rwa [← hcreator _ (hne hlive)])
      reaped := fun halive h =>
        hist.reaped halive (by rwa [← hphase _ (hne halive.live)])
      reaped_inj := fun halive halive' h h' =>
        hist.reaped_inj halive halive' (by rwa [← hphase _ (hne halive.live)])
          (by rwa [← hphase _ (hne halive'.live)]) }

/-- A slot without a process gets the next number. -/
theorem alloc (tree : Tree state parent initproc booted) (hdead : ¬ (state p).Live)
    (hstart : booted = false → log = []) :
    Hist state parent xstate initproc (Function.update serial p (born + 1)) creator phase
      (born + 1) log := by
  have hsame : ∀ {q}, (state q).Live →
      Function.update serial p (born + 1) q = serial q := by
    intro q hlive
    refine Function.update_of_ne ?_ _ _
    rintro rfl
    exact hdead hlive
  have hinit : booted = true →
      initproc.map (Function.update serial p (born + 1)) = initproc.map serial := by
    intro hb
    obtain ⟨i, hi, halive⟩ := tree.init hb
    rw [hi, Option.map_some, Option.map_some, hsame halive.live]
  refine ⟨?_, fun h => Nat.le_succ_of_le (hist.bound h), ?_, ?_, ?_, ?_, hist.zombie,
    hist.orphan, ?_, ?_, hist.reaped_inj⟩
  · cases hb : booted with
    | false => rw [hstart hb]; trivial
    | true => rw [hinit hb]; exact hist.ok
  · intro q hlive
    rw [hsame hlive]
    exact hist.forked hlive
  · intro q hlive
    rw [hsame hlive]
    exact hist.waited hlive
  · intro q hlive
    rw [hsame hlive]
    exact hist.running hlive
  · intro q status hlive
    rw [hsame hlive]
    exact hist.exiting hlive
  · intro q c hlive hc
    obtain ⟨i, hi, h⟩ := hist.parent hlive hc
    exact ⟨i, hi, by rwa [hsame (tree.parent_alive hi).live]⟩
  · intro q c status halive hphase
    have hb : booted = true := by
      by_contra hb
      exact tree.unbooted (Bool.eq_false_of_not_eq_true hb) q halive.live
    obtain ⟨hexit, hwait, hlive, hinherit⟩ := hist.reaped halive hphase
    refine ⟨hexit, hwait, fun r hr => ?_, ?_⟩
    · rw [hsame hr]
      exact hlive r hr
    · rw [hinit hb, hsame halive.live]
      exact hinherit

theorem mute {event : Event} (hmute : event.Mute)
    (hok : EventOk (initproc.map serial) log event) :
    Hist state parent xstate initproc serial creator phase born (event :: log) where
  ok := ⟨hok, hist.ok⟩
  bound h := hist.bound (hmute.hasForked.mp h)
  forked hlive := List.mem_cons_of_mem _ (hist.forked hlive)
  waited hlive h := hist.waited hlive (hmute.hasWaited.mp h)
  running hlive hphase h := hist.running hlive hphase (hmute.hasExited.mp h)
  exiting hlive hphase := List.mem_cons_of_mem _ (hist.exiting hlive hphase)
  zombie := hist.zombie
  orphan := hist.orphan
  parent hlive hc := by
    obtain ⟨i, hi, h⟩ := hist.parent hlive hc
    exact ⟨i, hi, h.imp id fun ⟨hinit, he⟩ => ⟨hinit, he.cons⟩⟩
  reaped halive hphase := by
    obtain ⟨hexit, hwait, hlive, hinherit⟩ := hist.reaped halive hphase
    exact ⟨List.mem_cons_of_mem _ hexit, fun h => hwait (hmute.hasWaited.mp h), hlive,
      hinherit.cons⟩
  reaped_inj := hist.reaped_inj

/-- A phase other than `exiting` and `reaped` says nothing about the past. -/
theorem setPhase {x : Phase} (hold : ∀ status, phase p ≠ .exiting status)
    (hexiting : ∀ status, x ≠ .exiting status) (hreaped : ∀ c status, x ≠ .reaped c status) :
    Hist state parent xstate initproc serial creator (Function.update phase p x) born
      log := by
  have hne : ∀ {q status}, Function.update phase p x q = .exiting status → q ≠ p := by
    rintro q status h rfl
    exact hexiting status (by simpa using h)
  have hne' : ∀ {q c status}, Function.update phase p x q = .reaped c status → q ≠ p := by
    rintro q c status h rfl
    exact hreaped c status (by simpa using h)
  exact
    { hist with
      running := fun {q} hlive h => by
        by_cases heq : q = p
        · subst heq
          exact hist.running hlive hold
        · exact hist.running hlive (by simpa [heq] using h)
      exiting := fun hlive h => hist.exiting hlive (by simpa [hne h] using h)
      zombie := fun {q} hz => by
        have heq : q ≠ p := by
          rintro rfl
          exact hold _ (hist.zombie hz)
        simpa [heq] using hist.zombie hz
      reaped := fun halive h => hist.reaped halive (by simpa [hne' h] using h)
      reaped_inj := fun halive halive' h h' =>
        hist.reaped_inj halive halive' (by simpa [hne' h] using h)
          (by simpa [hne' h'] using h') }

theorem exit {status : CInt} (pids : Pids state serial pid born nextpid)
    (hlive : (state p).Live) (hzombie : state p ≠ .zombie)
    (hphase : ∀ status, phase p ≠ .exiting status) :
    Hist state parent xstate initproc serial creator
      (Function.update phase p (.exiting status)) born
      (.exited (serial p) (pid p) status :: log) := by
  have hne : ∀ {q c status'}, Function.update phase p (.exiting status) q =
      .reaped c status' → q ≠ p := by
    rintro q c status' h rfl
    simp at h
  refine
    { ok := ⟨⟨pids.pid hlive, ⟨_, hist.forked hlive⟩, hist.running hlive hphase⟩, hist.ok⟩
      bound := fun {s} ⟨c, h⟩ => hist.bound (s := s) ⟨c, by simpa using h⟩
      forked := fun hq => List.mem_cons_of_mem _ (hist.forked hq)
      waited := fun {q} hq ⟨who, pid, stored, h⟩ =>
        hist.waited hq ⟨who, pid, stored, by simpa using h⟩
      running := ?_
      exiting := ?_
      zombie := ?_
      orphan := hist.orphan
      parent := fun hq hc => by
        obtain ⟨i, hi, h⟩ := hist.parent hq hc
        exact ⟨i, hi, h.imp id fun ⟨hinit, he⟩ => ⟨hinit, he.cons⟩⟩
      reaped := fun {q c status'} halive h => by
        obtain ⟨hexit, hwait, hlive', hinherit⟩ :=
          hist.reaped halive (by simpa [hne h] using h)
        exact ⟨List.mem_cons_of_mem _ hexit, fun ⟨who, pid, stored, h⟩ =>
          hwait ⟨who, pid, stored, by simpa using h⟩, hlive', hinherit.cons⟩
      reaped_inj := fun halive halive' h h' =>
        hist.reaped_inj halive halive' (by simpa [hne h] using h)
          (by simpa [hne h'] using h') }
  · rintro q hq hnot ⟨pid', status', h⟩
    by_cases heq : q = p
    · subst heq
      exact hnot status (by simp)
    · rcases List.mem_cons.mp h with h | h
      · exact heq (pids.inj (Event.exited.inj h).1 (pids.pos hq))
      · exact hist.running hq (by simpa [heq] using hnot) ⟨pid', status', h⟩
  · intro q status' hq h
    by_cases heq : q = p
    · subst heq
      have hstatus : status = status' := by simpa using h
      rw [← hstatus, ← pids.pid hq]
      exact List.mem_cons_self
    · exact List.mem_cons_of_mem _ (hist.exiting hq (by simpa [heq] using h))
  · intro q hz
    have heq : q ≠ p := by
      rintro rfl
      exact hzombie hz
    simpa [heq] using hist.zombie hz

theorem die {status : CInt} (halive : (state p).Alive) (hphase : phase p = .exiting status) :
    Hist (Function.update state p .zombie) parent (Function.update xstate p status)
      initproc serial creator phase born log := by
  have hlive : ∀ {q}, (Function.update state p ProcState.zombie q).Live →
      (state q).Live := by
    intro q h
    by_cases heq : q = p
    · subst heq
      exact halive.live
    · simpa [heq] using h
  have halive' : ∀ {q}, (Function.update state p ProcState.zombie q).Alive →
      (state q).Alive := by
    intro q h
    by_cases heq : q = p
    · subst heq
      exact halive
    · simpa [heq] using h
  exact
    { ok := hist.ok
      bound := hist.bound
      forked := fun h => hist.forked (hlive h)
      waited := fun h => hist.waited (hlive h)
      running := fun h => hist.running (hlive h)
      exiting := fun h => hist.exiting (hlive h)
      zombie := fun {q} hz => by
        by_cases heq : q = p
        · subst heq
          simpa using hphase
        · simpa [heq] using hist.zombie (by simpa [heq] using hz)
      orphan := fun h => hist.orphan (hlive h)
      parent := fun h => hist.parent (hlive h)
      reaped := fun {q c status'} h hq => by
        obtain ⟨hexit, hwait, hnone, hinherit⟩ := hist.reaped (halive' h) hq
        exact ⟨hexit, hwait, fun r hr => hnone r (hlive hr), hinherit⟩
      reaped_inj := fun h h' => hist.reaped_inj (halive' h) (halive' h') }

/-- A child of an exiting process is given to `initproc`. -/
theorem adopt {q i : Slot} {status : CInt} (hinit : initproc = some i)
    (hlive : (state p).Live) (hphase : phase p = .exiting status)
    (hparent : parent q = some p) :
    Hist state (Function.update parent q initproc) xstate initproc serial creator phase
      born log :=
  { hist with
    orphan := fun {r} hr hc => by
      by_cases heq : r = q
      · subst heq
        have hnone := hist.orphan hr hc
        rw [hparent] at hnone
        cases hnone
      · simpa [heq] using hist.orphan hr hc
    parent := fun {r c} hr hc => by
      obtain ⟨j, hj, h⟩ := hist.parent hr hc
      by_cases heq : r = q
      · subst heq
        refine ⟨i, by simpa using hinit, .inr ⟨hinit, ?_⟩⟩
        rcases h with h | ⟨-, h⟩
        · rw [hparent] at hj
          cases hj
          exact ⟨_, _, h ▸ hist.exiting hlive hphase⟩
        · exact h
      · exact ⟨j, by simpa [heq] using hj, h⟩ }

theorem inherits {q r : Slot} (hlive : (state q).Live) (hparent : parent q = some r) :
    Inherits (initproc.map serial) log (serial r) (serial q) := by
  cases hc : creator q with
  | none =>
      rw [hist.orphan hlive hc] at hparent
      cases hparent
  | some c =>
      obtain ⟨i, hi, h⟩ := hist.parent hlive hc
      rw [hparent] at hi
      cases hi
      refine ⟨c, hc ▸ hist.forked hlive, h.imp Eq.symm fun ⟨hinit, he⟩ => ⟨?_, he⟩⟩
      rw [hinit]
      rfl

theorem reap {q r : Slot} (pids : Pids state serial pid born nextpid)
    (hq : state q = .zombie) (hparent : parent q = some r) (hr : (state r).Alive)
    (hphase : ∀ status, phase r ≠ .exiting status) :
    Hist (Function.update state q .unused) (Function.update parent q none)
      (Function.update xstate q 0) initproc serial creator
      (Function.update (Function.update phase q .out) r (.reaped (serial q) (xstate q)))
      born log := by
  have hqlive : (state q).Live := by rw [hq]; trivial
  have hrq : r ≠ q := by
    rintro rfl
    rw [hq] at hr
    exact hr
  have hne : ∀ {s}, (Function.update state q ProcState.unused s).Live →
      s ≠ q ∧ (state s).Live := by
    intro s h
    have heq : s ≠ q := by
      rintro rfl
      simp at h
    exact ⟨heq, by simpa [heq] using h⟩
  have halive : ∀ {s}, (Function.update state q ProcState.unused s).Alive →
      (state s).Alive := by
    intro s h
    simpa [(hne h.live).1] using h
  have hold : ∀ {s c status}, (Function.update state q ProcState.unused s).Alive →
      Function.update (Function.update phase q .out) r
        (.reaped (serial q) (xstate q)) s = .reaped c status →
      s = r ∧ c = serial q ∧ status = xstate q ∨ s ≠ r ∧ phase s = .reaped c status := by
    intro s c status hs h
    by_cases heq : s = r
    · subst heq
      have := (Phase.reaped.inj (by simpa using h))
      exact .inl ⟨rfl, this.1.symm, this.2.symm⟩
    · exact .inr ⟨heq, by simpa [heq, (hne hs.live).1] using h⟩
  have hkept : ∀ {s}, (Function.update state q ProcState.unused s).Live →
      (∀ status, Function.update (Function.update phase q .out) r
        (.reaped (serial q) (xstate q)) s ≠ .exiting status) →
      ∀ status, phase s ≠ .exiting status := by
    intro s hs h
    by_cases heq : s = r
    · subst heq
      exact hphase
    · simpa [heq, (hne hs).1] using h
  exact
    { ok := hist.ok
      bound := hist.bound
      forked := fun h => hist.forked (hne h).2
      waited := fun h => hist.waited (hne h).2
      running := fun h hx => hist.running (hne h).2 (hkept h hx)
      exiting := fun {s status} h hx => by
        have hsr : s ≠ r := by
          rintro rfl
          simp at hx
        exact hist.exiting (hne h).2 (by simpa [hsr, (hne h).1] using hx)
      zombie := fun {s} hz => by
        obtain ⟨hsq, -⟩ := hne (s := s) (by rw [hz]; trivial)
        have hz' : state s = .zombie := by simpa [hsq] using hz
        have hsr : s ≠ r := by
          rintro rfl
          rw [hz'] at hr
          exact hr
        simpa [hsq, hsr] using hist.zombie hz'
      orphan := fun {s} h hc => by
        simpa [(hne h).1] using hist.orphan (hne h).2 hc
      parent := fun {s c} h hc => by
        simpa [(hne h).1] using hist.parent (hne h).2 hc
      reaped := fun {s c status} h hx => by
        rcases hold h hx with ⟨rfl, rfl, rfl⟩ | ⟨-, hx'⟩
        · refine ⟨hist.exiting hqlive (hist.zombie hq), hist.waited hqlive, ?_,
            hist.inherits hqlive hparent⟩
          intro t ht heq
          exact (hne ht).1 (pids.inj heq (pids.pos (hne ht).2))
        · obtain ⟨hexit, hwait, hnone, hinherit⟩ := hist.reaped (halive h) hx'
          exact ⟨hexit, hwait, fun t ht => hnone t (hne ht).2, hinherit⟩
      reaped_inj := fun {s s' c status status'} h h' hx hx' => by
        rcases hold h hx with ⟨rfl, rfl, -⟩ | ⟨-, hx₁⟩ <;>
          rcases hold h' hx' with ⟨rfl, hc, -⟩ | ⟨-, hx₂⟩
        · rfl
        · exact absurd rfl ((hist.reaped (halive h') hx₂).2.2.1 q hqlive)
        · exact absurd hc.symm ((hist.reaped (halive h) hx₁).2.2.1 q hqlive)
        · exact hist.reaped_inj (halive h) (halive h') hx₁ hx₂ }

theorem fork {c : Option Nat} (hdead : ¬ (state p).Live) (hserial : serial p ≤ born)
    (hfresh : ¬ HasForked log (serial p))
    (hparent : match c with
      | none => parent p = none
      | some c => ∃ i, parent p = some i ∧ serial i = c) :
    Hist (Function.update state p .runnable) parent xstate initproc serial
      (Function.update creator p c) (Function.update phase p .out) born
      (.forked c (serial p) :: log) := by
  have hsplit : ∀ {q}, (Function.update state p ProcState.runnable q).Live →
      q = p ∨ q ≠ p ∧ (state q).Live := by
    intro q h
    by_cases heq : q = p
    · exact .inl heq
    · exact .inr ⟨heq, by simpa [heq] using h⟩
  have hphase : ∀ {q x}, x ≠ .out → Function.update phase p .out q = x →
      q ≠ p ∧ phase q = x := by
    intro q x hx h
    have heq : q ≠ p := by
      rintro rfl
      exact hx (by simpa using h.symm)
    exact ⟨heq, by simpa [heq] using h⟩
  have hexited : ∀ {s}, HasExited (.forked c (serial p) :: log) s → HasExited log s :=
    fun ⟨pid, status, h⟩ => ⟨pid, status, by simpa using h⟩
  have hwaited : ∀ {s}, HasWaited (.forked c (serial p) :: log) s → HasWaited log s :=
    fun ⟨who, pid, stored, h⟩ => ⟨who, pid, stored, by simpa using h⟩
  refine ⟨⟨hfresh, hist.ok⟩, ?_, ?_, ?_, ?_, ?_, ?_, ?_, ?_, ?_, ?_⟩
  · rintro s ⟨c', h⟩
    rcases List.mem_cons.mp h with h | h
    · rw [(Event.forked.inj h).2]
      exact hserial
    · exact hist.bound ⟨c', h⟩
  · intro q h
    rcases hsplit h with rfl | ⟨hne, hlive⟩
    · simp
    · simpa [hne] using .inr (hist.forked hlive)
  · intro q h hw
    rcases hsplit h with rfl | ⟨hne, hlive⟩
    · exact hfresh (hist.ok.forked.2 _ (hwaited hw))
    · exact hist.waited hlive (hwaited hw)
  · intro q h hx he
    rcases hsplit h with rfl | ⟨hne, hlive⟩
    · exact hfresh (hist.ok.forked.1 _ (hexited he))
    · exact hist.running hlive (by simpa [hne] using hx) (hexited he)
  · intro q status h hx
    obtain ⟨hne, hx'⟩ := hphase (by simp) hx
    exact List.mem_cons_of_mem _ (hist.exiting (by simpa [hne] using h) hx')
  · intro q hz
    have hne : q ≠ p := by
      rintro rfl
      simp at hz
    simpa [hne] using hist.zombie (by simpa [hne] using hz)
  · intro q h hc
    rcases hsplit h with rfl | ⟨hne, hlive⟩
    · have hnone : c = none := by simpa using hc
      simpa [hnone] using hparent
    · exact hist.orphan hlive (by simpa [hne] using hc)
  · intro q c' h hc
    rcases hsplit h with rfl | ⟨hne, hlive⟩
    · have hsome : c = some c' := by simpa using hc
      simp only [hsome] at hparent
      obtain ⟨i, hi, hc⟩ := hparent
      exact ⟨i, hi, .inl hc⟩
    · obtain ⟨i, hi, h⟩ := hist.parent hlive (by simpa [hne] using hc)
      exact ⟨i, hi, h.imp id fun ⟨hinit, he⟩ => ⟨hinit, he.cons⟩⟩
  · intro q c' status h hx
    obtain ⟨hne, hx'⟩ := hphase (by simp) hx
    obtain ⟨hexit, hwait, hnone, hinherit⟩ :=
      hist.reaped (by simpa [hne] using h) hx'
    refine ⟨List.mem_cons_of_mem _ hexit, fun hw => hwait (hwaited hw), ?_, hinherit.cons⟩
    intro r hr
    rcases hsplit hr with rfl | ⟨-, hlive⟩
    · rintro rfl
      exact hfresh (hist.ok.forked.1 _ ⟨_, _, hexit⟩)
    · exact hnone r hlive
  · intro q q' c' status status' h h' hx hx'
    obtain ⟨hne, hx₁⟩ := hphase (by simp) hx
    obtain ⟨hne', hx₂⟩ := hphase (by simp) hx'
    exact hist.reaped_inj (by simpa [hne] using h) (by simpa [hne'] using h') hx₁ hx₂

/-- `wait_process` returns a child that it has freed. -/
theorem wait {r : Slot} {c : Nat} {status : CInt} {stored : Option CInt}
    (hr : (state r).Alive) (hphase : phase r = .reaped c status)
    (hstored : stored = none ∨ stored = some status) :
    Hist state parent xstate initproc serial creator (Function.update phase r .out) born
      (.waited (serial r) c (pidOf c) stored :: log) := by
  obtain ⟨hexit, hwait, hnone, hinherit⟩ := hist.reaped hr hphase
  have hne : ∀ {q x}, x ≠ .out → Function.update phase r .out q = x →
      q ≠ r ∧ phase q = x := by
    intro q x hx h
    have heq : q ≠ r := by
      rintro rfl
      exact hx (by simpa using h.symm)
    exact ⟨heq, by simpa [heq] using h⟩
  have hexited : ∀ {s}, HasExited (.waited (serial r) c (pidOf c) stored :: log) s →
      HasExited log s := fun ⟨pid, status, h⟩ => ⟨pid, status, by simpa using h⟩
  have hwaited : ∀ {s}, s ≠ c →
      HasWaited (.waited (serial r) c (pidOf c) stored :: log) s → HasWaited log s := by
    rintro s hs ⟨who, pid, stored', h⟩
    refine ⟨who, pid, stored', (List.mem_cons.mp h).resolve_left fun h => ?_⟩
    exact hs (Event.waited.inj h).2.1
  refine ⟨⟨⟨rfl, hwait, hinherit, status, hexit, hstored⟩, hist.ok⟩, ?_, ?_, ?_, ?_, ?_, ?_,
    hist.orphan, ?_, ?_, ?_⟩
  · rintro s ⟨c', h⟩
    exact hist.bound ⟨c', by simpa using h⟩
  · exact fun h => List.mem_cons_of_mem _ (hist.forked h)
  · exact fun {q} h hw => hist.waited h (hwaited (hnone q h) hw)
  · intro q h hx he
    refine hist.running h (fun status' hq => ?_) (hexited he)
    by_cases heq : q = r
    · subst heq
      rw [hphase] at hq
      cases hq
    · exact hx status' (by simpa [heq] using hq)
  · intro q status' h hx
    exact List.mem_cons_of_mem _ (hist.exiting h (hne (by simp) hx).2)
  · intro q hz
    have heq : q ≠ r := by
      rintro rfl
      rw [hz] at hr
      exact hr
    simpa [heq] using hist.zombie hz
  · intro q c' h hc
    obtain ⟨i, hi, h⟩ := hist.parent h hc
    exact ⟨i, hi, h.imp id fun ⟨hinit, he⟩ => ⟨hinit, he.cons⟩⟩
  · intro q c' status' h hx
    obtain ⟨hqr, hx'⟩ := hne (by simp) hx
    obtain ⟨hexit', hwait', hnone', hinherit'⟩ := hist.reaped h hx'
    refine ⟨List.mem_cons_of_mem _ hexit', fun hw => hwait' (hwaited ?_ hw), hnone',
      hinherit'.cons⟩
    rintro rfl
    exact hqr (hist.reaped_inj h hr hx' hphase)
  · intro q q' c' status' status'' h h' hx hx'
    exact hist.reaped_inj h h' (hne (by simp) hx).2 (hne (by simp) hx').2

end Hist

/-- Before the first process there is no history. -/
theorem Hist.nothing (hdead : ∀ q, ¬ (state q).Live) :
    Hist state parent xstate initproc serial creator phase born [] where
  ok := trivial
  bound := nofun
  forked h := absurd h (hdead _)
  waited h := absurd h (hdead _)
  running h := absurd h (hdead _)
  exiting h := absurd h (hdead _)
  zombie {q} h := absurd (by rw [h]; trivial) (hdead q)
  orphan h := absurd h (hdead _)
  parent h := absurd h (hdead _)
  reaped h := absurd h.live (hdead _)
  reaped_inj h := absurd h.live (hdead _)

end

end Xv6Kernel.Process
