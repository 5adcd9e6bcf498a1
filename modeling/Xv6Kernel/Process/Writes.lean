import Xv6Kernel.Process.History
import Xv6Kernel.Process.Steps

/-!
# Writes to one slot

Most writes of the kernel change one slot and add to the log.  What such a write
owes to the other contexts, and when it keeps the invariant, is said once here.
-/

namespace Xv6Kernel.Process

open Xv6Kernel.Foundation Xv6Kernel.Mm

/-- Only the slot `p` and the log change. -/
structure SlotWrite (p : Slot) (k k' : Kernel) : Prop where
  proc : ∀ q, q ≠ p → k'.proc q = k.proc q
  shadow : ∀ q, q ≠ p → k'.shadow q = k.shadow q
  log : k.log <:+ k'.log

/-- Nothing that a statement of the invariant speaks of changes. -/
structure Untouched (k k' : Kernel) : Prop where
  proc : k'.proc = k.proc
  shadow : k'.shadow = k.shadow
  nextpid : k'.nextpid = k.nextpid
  born : k'.born = k.born
  initproc : k'.initproc = k.initproc
  booted : k'.booted = k.booted
  log : k'.log = k.log

namespace SlotWrite

variable {p : Slot} {k k' k'' : Kernel}

theorem refl : SlotWrite p k k := ⟨fun _ _ => rfl, fun _ _ => rfl, List.suffix_rfl⟩

theorem trans (h : SlotWrite p k k') (h' : SlotWrite p k' k'') : SlotWrite p k k'' where
  proc q hne := (h'.proc q hne).trans (h.proc q hne)
  shadow q hne := (h'.shadow q hne).trans (h.shadow q hne)
  log := h.log.trans h'.log

theorem setProc (f : Proc → Proc) : SlotWrite p k (k.setProc p f) where
  proc _ hne := Kernel.setProc_proc_of_ne k f hne
  shadow _ _ := rfl
  log := List.suffix_rfl

theorem setShadow (g : Shadow → Shadow) : SlotWrite p k (k.setShadow p g) where
  proc _ _ := rfl
  shadow _ hne := Kernel.setShadow_shadow_of_ne k g hne
  log := List.suffix_rfl

theorem record (event : Event) : SlotWrite p k (k.record event) where
  proc _ _ := rfl
  shadow _ _ := rfl
  log := List.suffix_cons ..

variable (sw : SlotWrite p k k') {q : Slot} (hne : q ≠ p)
include sw hne

theorem state : k'.state q = k.state q := by rw [Kernel.state, sw.proc q hne]; rfl
theorem chan : k'.chan q = k.chan q := by rw [Kernel.chan, sw.proc q hne]; rfl
theorem parent : k'.parent q = k.parent q := by rw [Kernel.parent, sw.proc q hne]; rfl
theorem pid : k'.pid q = k.pid q := by rw [Kernel.pid, sw.proc q hne]; rfl
theorem context : k'.context q = k.context q := by
  rw [Kernel.context, sw.proc q hne]; rfl
theorem serial : k'.serial q = k.serial q := by
  rw [Kernel.serial, sw.shadow q hne]; rfl
theorem creator : k'.creator q = k.creator q := by
  rw [Kernel.creator, sw.shadow q hne]; rfl
theorem phase : k'.phase q = k.phase q := by rw [Kernel.phase, sw.shadow q hne]; rfl

end SlotWrite

variable {H : Type} {S : Setting H} {img : Image} {l : Local H} {h : H} {w : World H}
  {c : Ctx H} {held : Lock → Prop} {p : Slot} {k k' k'' : Kernel} {full : Prop}

/-! ## What the others are owed -/

theorem SlotWrite.ownKept (sw : SlotWrite p k k') (hne : c ≠ .proc p)
    (boot : BootKept k k')
    (child : ∀ q, c = .proc q → k.parent p = some q →
      k'.parent p = some q ∧ k'.serial p = k.serial p ∧ k'.pid p = k.pid p) :
    OwnKept S full c k k' := by
  cases c with
  | cpu h => exact fun _ => boot
  | proc q =>
      have hqp : q ≠ p := fun heq => hne (by rw [heq])
      intro halive
      refine ⟨by rwa [sw.state hqp], ⟨k.phase q, sw.shadow q hqp, .inl rfl⟩,
        by rw [sw.state hqp, sw.phase hqp]; exact .intro, sw.pid hqp,
        fun _ => sw.context hqp, fun r hr => ?_, boot.initproc⟩
      by_cases hrp : r = p
      · subst hrp
        exact child q rfl hr
      · exact ⟨by rwa [sw.parent hrp], sw.serial hrp, sw.pid hrp⟩

/-- What a write to a slot has to keep of the slot itself. -/
structure SlotOwed (S : Setting H) (c : Ctx H) (held : Lock → Prop) (p : Slot)
    (k k' : Kernel) : Prop where
  self : c ≠ .proc p → (k.state p).Alive → KeptData S True p k k'
  reborn : c ≠ .proc p → ¬ (k.state p).Alive → (k'.state p).Alive →
    (k'.context p).ra = S.img.forkret
  child : ∀ q, c ≠ .proc q → k.parent p = some q →
    k'.parent p = some q ∧ k'.serial p = k.serial p ∧ k'.pid p = k.pid p
  wait : ¬ held .wait → k'.parent p = k.parent p ∧
    (k'.state p = .zombie ↔ k.state p = .zombie) ∧
      (k'.phase p = .armed → k.phase p = .armed)
  orphan : (k.state p).Live → k.creator p = none →
    (k'.state p).Live ∧ k'.creator p = none ∧ k'.serial p = k.serial p ∧
      k'.pid p = k.pid p
  unforked : ∀ q, q ≠ p → ¬ HasForked k.log (k.serial q) →
    ¬ HasForked k'.log (k.serial q)

theorem SlotWrite.forever (sw : SlotWrite p k k') (owed : SlotOwed S c held p k k') :
    Forever k k' where
  log := sw.log
  orphan q hlive hc := by
    by_cases hq : q = p
    · subst hq
      exact owed.orphan hlive hc
    · rw [sw.state hq, sw.creator hq]
      exact ⟨hlive, hc, sw.serial hq, sw.pid hq⟩

theorem SlotWrite.others (sw : SlotWrite p k k') (owed : SlotOwed S c held p k k')
    (hheld : held (.proc p))
    (boot : c = .cpu S.hart ∧ (∀ q, ¬ (k.state q).Live) ∨ BootKept k k')
    (pids : ¬ held .pid → PidsKept k k') : Others S c held k k' where
  own c' hne := by
    rcases boot with ⟨rfl, hdead⟩ | boot
    · cases c' with
      | proc q => exact fun halive => absurd halive.live (hdead q)
      | cpu h => exact fun heq => absurd (by rw [heq]) hne
    · by_cases hc' : c' = .proc p
      · subst hc'
        exact fun halive => owed.self (Ne.symm hne) halive
      · exact sw.ownKept hc' boot fun q hq hparent =>
          owed.child q (fun heq => hne (hq.trans heq.symm)) hparent
  reborn q hne hdead halive := by
    by_cases hq : q = p
    · subst hq
      exact owed.reborn hne hdead halive
    · rw [sw.state hq] at halive
      exact absurd halive hdead
  slot q hq := by
    have hne : q ≠ p := by
      rintro rfl
      exact hq hheld
    exact ⟨⟨k.parent q, sw.proc q hne⟩, fun hnone => by rwa [sw.parent hne],
      sw.serial hne, sw.creator hne, by rw [sw.shadow q hne],
      fun _ => sw.shadow q hne, owed.unforked q hne⟩
  wait hwait := by
    obtain ⟨hparent, hzombie, harmed⟩ := owed.wait hwait
    refine ⟨funext fun q => ?_, fun q => ?_, fun q => ?_⟩
    all_goals
      by_cases hq : q = p
      · subst hq
        assumption
    · exact sw.parent hq
    · rw [sw.state hq]
    · rw [sw.phase hq]
      exact id
  pids := pids
  forever := sw.forever owed

theorem Others.trans (h : Others S c held k k') (h' : Others S c held k' k'') :
    Others S c held k k'' where
  own c' hne := (h.own c' hne).trans (h'.own c' hne)
  reborn p hne hdead halive := by
    by_cases hmid : (k'.state p).Alive
    · have hkept := h'.own (.proc p) (Ne.symm hne) hmid
      rw [hkept.context (.inl trivial)]
      exact h.reborn p hne hdead hmid
    · exact h'.reborn p hne hmid halive
  slot p hp := (h.slot p hp).trans (h'.slot p hp)
  wait hp := (h.wait hp).trans (h'.wait hp)
  pids hp := (h.pids hp).trans (h'.pids hp)
  forever := h.forever.trans h'.forever

theorem Others.ownShadow {g : Shadow → Shadow} (hc : c = .proc p)
    (hsafe : k.state p = .running ∨ held (.proc p))
    (hserial : (g (k.shadow p)).serial = k.serial p)
    (hcreator : (g (k.shadow p)).creator = k.creator p)
    (hentry : (g (k.shadow p)).entry = (k.shadow p).entry)
    (hwait : ¬ held .wait → (g (k.shadow p)).phase = .armed → k.phase p = .armed) :
    Others S c held k (k.setShadow p g) := by
  have sw : SlotWrite p k (k.setShadow p g) := .setShadow g
  have hser : (k.setShadow p g).serial = k.serial := by
    simp [hserial, Function.update_eq_self]
  have hcre : (k.setShadow p g).creator = k.creator := by
    simp [hcreator, Function.update_eq_self]
  have hforever : Forever k (k.setShadow p g) :=
    ⟨sw.log, fun q hlive hq => ⟨hlive, by rw [hcre, hq], by rw [hser], rfl⟩⟩
  refine ⟨fun c' hne => ?_, fun q _ hdead halive => absurd halive hdead, fun q hq => ?_,
    fun hw => ⟨rfl, fun _ => .rfl, fun q hq => ?_⟩, fun _ => ⟨rfl, rfl⟩, hforever⟩
  · refine sw.ownKept (fun heq => hne (heq.trans hc.symm)) ⟨rfl, rfl, fun _ => rfl⟩
      fun q _ hparent =>
      ⟨hparent, by rw [hser], rfl⟩
  · refine ⟨⟨k.parent q, rfl⟩, id, by rw [hser], by rw [hcre], ?_, fun hstill => ?_, id⟩
    · by_cases heq : q = p
      · subst heq
        simpa using hentry
      · rw [sw.shadow q heq]
    · refine sw.shadow q ?_
      rintro rfl
      exact hsafe.elim hstill hq
  · by_cases heq : q = p
    · subst heq
      exact hwait hw (by simpa using hq)
    · rwa [sw.phase heq] at hq

theorem Untouched.frame (same : Untouched k k') : Frame S full c held k k' := by
  obtain ⟨proc, nextpid, initproc, ticks, first, console, memory, shadow, born, booted,
    log, calls, senders, sending⟩ := k
  obtain ⟨proc', nextpid', initproc', ticks', first', console', memory', shadow', born',
    booted', log', calls', senders', sending'⟩ := k'
  obtain ⟨h₁, h₂, h₃, h₄, h₅, h₆, h₇⟩ := same
  dsimp only at *
  subst h₁ h₂ h₃ h₄ h₅ h₆ h₇
  refine ⟨?_, fun _ _ => ⟨⟨_, rfl⟩, id, rfl, rfl, rfl, fun _ => rfl, id⟩,
    fun _ => ⟨rfl, fun _ => .rfl, fun _ => id⟩, fun _ => ⟨rfl, rfl⟩,
    ⟨List.suffix_rfl, fun _ hlive hc => ⟨hlive, hc, rfl, rfl⟩⟩⟩
  cases c with
  | proc q => exact fun halive => ⟨halive, ⟨_, rfl, .inl rfl⟩, .intro, rfl, fun _ => rfl,
      fun _ hr => ⟨hr, rfl, rfl⟩, rfl⟩
  | cpu h => exact fun _ => ⟨rfl, rfl, fun _ => rfl⟩

theorem Untouched.others (same : Untouched k k') : Others S c held k k' := by
  have frame : ∀ c : Ctx H, Frame S True c (fun _ => True) k k' := fun _ => same.frame
  refine ⟨fun c' _ => (frame c').own, fun p _ hdead halive => ?_,
    fun q _ => (frame c).slot q trivial, fun _ => (frame c).wait trivial,
    fun _ => (frame c).pids trivial, (frame c).forever⟩
  rw [Kernel.state, same.proc] at halive
  exact absurd halive hdead

theorem Untouched.data (same : Untouched k k') (data : Data img k) : Data img k' := by
  obtain ⟨proc, nextpid, initproc, ticks, first, console, memory, shadow, born, booted,
    log, calls, senders, sending⟩ := k
  obtain ⟨proc', nextpid', initproc', ticks', first', console', memory', shadow', born',
    booted', log', calls', senders', sending'⟩ := k'
  obtain ⟨h₁, h₂, h₃, h₄, h₅, h₆, h₇⟩ := same
  dsimp only at *
  subst h₁ h₂ h₃ h₄ h₅ h₆ h₇
  exact ⟨data.tree, data.pids, data.slot, data.hist, data.start, data.order, data.root⟩

/-! ## The invariant -/

theorem WaitKept.calm (kept : WaitKept k k') (calm : Calm k.state k.parent k.phase) :
    Calm k'.state k'.parent k'.phase := by
  intro p hp
  obtain ⟨⟨q, hq⟩, hcalm⟩ := calm p (kept.armed p hp)
  rw [kept.parent]
  exact ⟨⟨q, hq⟩, fun q hq hzombie => hcalm q hq ((kept.zombie q).mp hzombie)⟩

theorem Change.of_others (inv : Inv S.img w) (on : On l h w) (data : Data S.img k')
    (others : Others S l.ctx l.held w.kernel k')
    (hcur : ∀ {h' q}, w.cur h' = .proc q → k'.state q = w.kernel.state q ∨
      k'.state q = .running ∨ (w.lock (.proc q)).locked = some h')
    (harmed : ∀ {q}, k'.phase q = .armed →
      w.kernel.phase q = .armed ∧ k'.state q = w.kernel.state q ∧
        k'.chan q = w.kernel.chan q ∨ GoesToSleep { w with kernel := k' } q)
    (hfresh : ∀ {q}, (∀ h', w.cur h' ≠ .proc q) → (k'.state q).Alive →
      NotMoved S.img q k')
    (hmoves : ∀ q, k'.state q = w.kernel.state q ∨
      k'.state q ≠ .running ∧ StateMove l.ctx q w.kernel (w.kernel.state q) (k'.state q)) :
    Change S l w k' where
  cur_state {h' q} hq := by
    rcases hcur hq with heq | h
    · rw [heq]
      exact inv.cur_state hq
    · exact h
  calm hwait := by
    refine (others.wait fun hheld => ?_).calm (inv.calm hwait)
    rw [(on.held _).mpr hheld] at hwait
    cases hwait
  armed {q} hq := by
    rcases harmed hq with ⟨hphase, hstate, hchan⟩ | h
    · unfold GoesToSleep
      rw [hstate, hchan]
      exact inv.armed hphase
    · exact h
  fresh := hfresh
  data := data
  others := others
  claimed {q} hrun := by
    rcases hmoves q with heq | ⟨hne, -⟩
    · exact inv.claimed (heq.symm.trans hrun)
    · exact absurd hrun hne
  moves q := by
    rcases hmoves q with heq | ⟨-, hmove⟩
    · rw [heq]
      exact .still _
    · exact hmove

theorem NotMoved.congr (moved : NotMoved img p k) (hcontext : k'.context p = k.context p)
    (hshadow : k'.shadow p = k.shadow p) : NotMoved img p k' := by
  intro hra
  rw [Kernel.phase, hshadow]
  exact moved (by rwa [← hcontext])

/-- Nobody else runs a process whose lock the hart holds, unless it is running. -/
theorem SlotWrite.change (sw : SlotWrite p w.kernel k') (inv : Inv S.img w)
    (on : On l h w) (hheld : l.held (.proc p)) (data : Data S.img k')
    (others : Others S l.ctx l.held w.kernel k')
    (hrun : l.ctx = .proc p ∨ w.kernel.state p ≠ .running ∨
      k'.state p = w.kernel.state p)
    (harmed : k'.phase p = .armed → GoesToSleep { w with kernel := k' } p)
    (hfresh : l.ctx ≠ .proc p → (k'.state p).Alive → NotMoved S.img p k')
    (hmove : k'.state p = w.kernel.state p ∨ k'.state p ≠ .running ∧
      StateMove l.ctx p w.kernel (w.kernel.state p) (k'.state p)) :
    Change S l w k' := by
  refine .of_others inv on data others (fun {h' q} hq => ?_) (fun {q} hq => ?_)
    (fun {q} hq halive => ?_) fun q => ?_
  · by_cases heq : q = p
    · subst heq
      have hmine : (w.lock (.proc q)).locked = some h := (on.held _).mpr hheld
      rcases hrun with hctx | hnot | hsame
      · have heq : h' = h := inv.cur_inj hq (on.ctx.trans hctx)
        exact .inr (.inr (heq ▸ hmine))
      · exact .inr (.inr ((inv.cur_state hq).resolve_left hnot))
      · exact .inl hsame
    · exact .inl (sw.state heq)
  · by_cases heq : q = p
    · subst heq
      exact .inr (harmed hq)
    · rw [sw.phase heq] at hq
      exact .inl ⟨hq, sw.state heq, sw.chan heq⟩
  · by_cases heq : q = p
    · subst heq
      exact hfresh (fun hctx => hq h (on.ctx.trans hctx)) halive
    · rw [sw.state heq] at halive
      exact (inv.fresh hq halive).congr (sw.context heq) (sw.shadow q heq)
  · by_cases heq : q = p
    · subst heq
      exact hmove
    · exact .inl (sw.state heq)

theorem Untouched.change (same : Untouched w.kernel k') (inv : Inv S.img w)
    (on : On l h w) : Change S l w k' := by
  refine .of_others inv on (same.data inv.data) same.others (fun {_ q} _ => .inl ?_)
    (fun {q} hq => .inl ⟨?_, ?_, ?_⟩) (fun {q} hq halive => ?_) fun q => .inl ?_
  · rw [Kernel.state, same.proc]
    rfl
  · rwa [Kernel.phase, same.shadow] at hq
  · rw [Kernel.state, same.proc]
    rfl
  · rw [Kernel.chan, same.proc]
    rfl
  · rw [Kernel.state, same.proc] at halive
    refine (inv.fresh hq halive).congr ?_ (by rw [same.shadow])
    rw [Kernel.context, same.proc]
    rfl
  · rw [Kernel.state, same.proc]
    rfl

/-! ## Writes to the fields of a slot -/

section SetProc

variable {f : Proc → Proc}

/-- A write to the fields and the history of a slot at once. -/
theorem Data.setSlot (g : Shadow → Shadow) (data : Data img k)
    (hstate : Alike (k.state p) (f (k.proc p)).state)
    (hparent : (f (k.proc p)).parent = k.parent p)
    (hpid : (k.state p).Live → (f (k.proc p)).pid = k.pid p)
    (hxstate : (f (k.proc p)).xstate = k.xstate p)
    (hserial : (g (k.shadow p)).serial = k.serial p)
    (hcreator : (g (k.shadow p)).creator = k.creator p)
    (hphase : (g (k.shadow p)).phase = k.phase p ∨
      (∀ status, k.phase p ≠ .exiting status) ∧
        (∀ status, (g (k.shadow p)).phase ≠ .exiting status) ∧
        ∀ child status, (g (k.shadow p)).phase ≠ .reaped child status)
    (hslot : SlotOk img p (f (k.proc p)) (g (k.shadow p))) :
    Data img ((k.setProc p f).setShadow p g) where
  tree := by
    have htree := data.tree.alike (alike_update hstate)
    rwa [← Kernel.setProc_state, ← Function.update_eq_self p k.parent, ← hparent,
      ← Kernel.setProc_parent] at htree
  pids := by
    rw [Kernel.setShadow_serial, Kernel.setProc_shadow, hserial, Kernel.setProc_serial,
      Function.update_eq_self]
    refine data.pids.mono fun q hlive => ?_
    rw [Kernel.setShadow_state, Kernel.setProc_state] at hlive
    have hlive' := (alike_update hstate q).live.mp hlive
    refine ⟨hlive', ?_⟩
    by_cases hq : q = p
    · subst hq
      simpa using hpid hlive'
    · simp [hq]
  slot q := by
    by_cases hq : q = p
    · subst hq
      simpa using hslot
    · rw [Kernel.setShadow_shadow_of_ne _ g hq]
      rw [Kernel.setShadow_proc, Kernel.setProc_proc_of_ne k f hq]
      exact data.slot q
  hist := by
    have hist : Hist k.state k.parent k.xstate k.initproc k.serial k.creator
        (Function.update k.phase p (g (k.shadow p)).phase) k.born k.log := by
      rcases hphase with hphase | ⟨hold, hexiting, hreaped⟩
      · rw [hphase, Function.update_eq_self]
        exact data.hist
      · exact data.hist.setPhase hold hexiting hreaped
    have hist' := hist.alike (alike_update hstate)
    simpa only [Kernel.setShadow_state, Kernel.setShadow_parent, Kernel.setShadow_xstate,
      Kernel.setShadow_serial, Kernel.setShadow_creator, Kernel.setShadow_phase,
      Kernel.setProc_state, Kernel.setProc_parent, Kernel.setProc_xstate,
      Kernel.setProc_shadow, Kernel.setProc_serial, Kernel.setProc_creator,
      Kernel.setProc_phase, Kernel.setShadow_initproc, Kernel.setProc_initproc,
      Kernel.setShadow_born, Kernel.setProc_born, Kernel.setShadow_log,
      Kernel.setProc_log, hserial, hcreator, hparent, hxstate,
      Function.update_eq_self] using hist'
  start := data.start
  order {q r} hq := by
    simp only [Kernel.setShadow_parent, Kernel.setProc_parent, hparent,
      Function.update_eq_self] at hq
    simpa only [Kernel.setShadow_serial, Kernel.setProc_serial, Kernel.setProc_shadow,
      hserial, Function.update_eq_self] using data.order hq
  root hb i hi := by
    simpa only [Kernel.setShadow_serial, Kernel.setProc_serial, Kernel.setProc_shadow,
      hserial, Function.update_eq_self] using data.root hb i hi

theorem setShadow_id (k : Kernel) (p : Slot) : k.setShadow p id = k := by
  simp [Kernel.setShadow, Function.update_eq_self]

theorem setProc_id (k : Kernel) (p : Slot) : k.setProc p id = k := by
  simp [Kernel.setProc, Function.update_eq_self]

theorem Data.setProc (data : Data img k)
    (hstate : Alike (k.state p) (f (k.proc p)).state)
    (hparent : (f (k.proc p)).parent = k.parent p)
    (hpid : (k.state p).Live → (f (k.proc p)).pid = k.pid p)
    (hxstate : (f (k.proc p)).xstate = k.xstate p)
    (hslot : SlotOk img p (f (k.proc p)) (k.shadow p)) : Data img (k.setProc p f) := by
  have data' := data.setSlot id hstate hparent hpid hxstate rfl rfl (.inl rfl) hslot
  rwa [setShadow_id] at data'

theorem Data.setShadow {g : Shadow → Shadow} (data : Data img k)
    (hserial : (g (k.shadow p)).serial = k.serial p)
    (hcreator : (g (k.shadow p)).creator = k.creator p)
    (hphase : (g (k.shadow p)).phase = k.phase p ∨
      (∀ status, k.phase p ≠ .exiting status) ∧
        (∀ status, (g (k.shadow p)).phase ≠ .exiting status) ∧
        ∀ child status, (g (k.shadow p)).phase ≠ .reaped child status)
    (hslot : SlotOk img p (k.proc p) (g (k.shadow p))) :
    Data img (k.setShadow p g) := by
  have data' := Data.setSlot (f := id) g data (.refl _) rfl (fun _ => rfl) rfl hserial hcreator
    hphase hslot
  rwa [setProc_id] at data'

theorem SlotOwed.setProc (hother : c ≠ .proc p →
      ¬ (k.state p).Alive ∧ ¬ (f (k.proc p)).state.Alive)
    (hparent : (f (k.proc p)).parent = k.parent p)
    (hpid : (f (k.proc p)).pid = k.pid p ∨ k.parent p = none ∧ ¬ (k.state p).Live)
    (hlive : (k.state p).Live → (f (k.proc p)).state.Live)
    (hzombie : ¬ held .wait → ((f (k.proc p)).state = .zombie ↔ k.state p = .zombie)) :
    SlotOwed S c held p k (k.setProc p f) where
  self hc halive := absurd halive (hother hc).1
  reborn hc _ halive := absurd (by simpa using halive) (hother hc).2
  child q _ hq := by
    rcases hpid with hpid | ⟨hnone, -⟩
    · simp [hparent, hq, hpid]
    · rw [hq] at hnone
      cases hnone
  wait hw := by simpa [hparent] using hzombie hw
  orphan hl hc := by
    rcases hpid with hpid | ⟨-, hdead⟩
    · simpa [hpid, hc] using hlive hl
    · exact absurd hl hdead
  unforked _ _ := id

theorem KeptData.of_setProc (hparent : (f (k.proc p)).parent = k.parent p)
    (hpid : (f (k.proc p)).pid = k.pid p) (halive : (f (k.proc p)).state.Alive)
    (harmed : k.phase p = .armed → k.state p = .running → (f (k.proc p)).state = .running)
    (hcontext : full ∨ S.quiet = true ∧ (k.shadow p).window = true →
      (f (k.proc p)).context = k.context p) :
    KeptData S full p k (k.setProc p f) where
  alive := by simpa using halive
  shadow := ⟨k.phase p, rfl, .inl rfl⟩
  armed h hrunning := ⟨h, by simpa using harmed h hrunning⟩
  pid := by simpa using hpid
  context hfull := by simpa using hcontext hfull
  children q hq := by simp [hparent, hpid, hq, Function.update_eq_self]
  initproc := rfl

/-- What a context keeps of its own when it writes to a slot. -/
theorem Frame.setProc (hparent : (f (k.proc p)).parent = k.parent p)
    (hpid : (f (k.proc p)).pid = k.pid p ∨ k.parent p = none ∧ ¬ (k.state p).Live)
    (halive : c = .proc p → (k.state p).Alive → (f (k.proc p)).state.Alive)
    (harmed : c = .proc p → k.phase p = .armed → k.state p = .running →
      (f (k.proc p)).state = .running)
    (hcontext : c = .proc p → full ∨ S.quiet = true ∧ (k.shadow p).window = true →
      (f (k.proc p)).context = k.context p)
    (hlive : (k.state p).Live → (f (k.proc p)).state.Live) :
    Frame S full c (fun _ => False) k (k.setProc p f) where
  own := by
    by_cases hc : c = .proc p
    · subst hc
      intro hl
      refine .of_setProc hparent (hpid.resolve_right fun h => h.2 hl.live)
        (halive rfl hl) (harmed rfl) (hcontext rfl)
    · refine (SlotWrite.setProc f).ownKept hc ⟨rfl, rfl, fun _ => rfl⟩ fun q _ hq => ?_
      rcases hpid with hpid | ⟨hnone, -⟩
      · simp [hparent, hq, hpid]
      · rw [hq] at hnone
        cases hnone
  slot _ := False.elim
  wait := False.elim
  pids := False.elim
  forever :=
    ⟨List.suffix_rfl, fun q hl hc => by
      by_cases hq : q = p
      · subst hq
        rcases hpid with hpid | ⟨-, hdead⟩
        · simpa [hpid, hc] using hlive hl
        · exact absurd hl hdead
      · simpa [hq, hc] using hl⟩

end SetProc

/-! ## Other slots -/

theorem SlotOwed.mono {held' : Lock → Prop} (owed : SlotOwed S c held p k k')
    (h : ∀ lk, held lk → held' lk) : SlotOwed S c held' p k k' :=
  { owed with wait := fun hw => owed.wait fun hwait => hw (h _ hwait) }

/-- A write to another slot is a frame for the locks of all others. -/
theorem SlotWrite.frame (sw : SlotWrite p k k')
    (owed : SlotOwed S c (fun _ => False) p k k') (hne : c ≠ .proc p)
    (hheld : ¬ held (.proc p)) (boot : BootKept k k') (pids : PidsKept k k')
    (child : ∀ q, c = .proc q → k.parent p = some q →
      k'.parent p = some q ∧ k'.serial p = k.serial p ∧ k'.pid p = k.pid p) :
    Frame S full c held k k' := by
  have others : Others S c (fun lk => lk = .proc p) k k' :=
    sw.others (owed.mono fun _ => False.elim) rfl (.inr boot) fun _ => pids
  refine ⟨sw.ownKept hne boot child, fun q hq => others.slot q fun heq => ?_,
    fun _ => others.wait nofun, fun _ => pids, others.forever⟩
  cases heq
  exact hheld hq

/-- Nobody runs a process that is not running and whose lock is taken here. -/
theorem On.away (on : On l h w) (inv : Inv S.img w) (hheld : l.held (.proc p))
    (hctx : l.ctx ≠ .proc p) (hstate : w.kernel.state p ≠ .running) (h' : H) :
    w.cur h' ≠ .proc p := by
  intro hcur
  have hlocked := (inv.cur_state hcur).resolve_left hstate
  rw [(on.held _).mpr hheld] at hlocked
  obtain rfl := Option.some.inj hlocked
  exact hctx (on.ctx.symm.trans hcur)

theorem Change.refl (inv : Inv S.img w) (on : On l h w) : Change S l w w.kernel :=
  Untouched.change ⟨rfl, rfl, rfl, rfl, rfl, rfl, rfl⟩ inv on

end Xv6Kernel.Process
