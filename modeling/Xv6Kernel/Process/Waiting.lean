import Xv6Kernel.Process.Exiting

/-!
# `wait_process`

A process goes through its children under `wait_lock`: it frees a zombie, gives up if it
has no child at all, or sleeps until a child has become a zombie.
-/

namespace Xv6Kernel.Process

open Xv6Kernel.Foundation Xv6Kernel.Mm

variable {H : Type} {S : Setting H} {l : Local H} {F : Kernel → Prop} {h : H}
  {w : World H} {p q : Slot} {k : Kernel} {sie : Bool} {img : Image} {g : Origin}

/-! ## Looking for a child -/

/-- The history of a process and the one of the run when the call began. -/
structure Origin extends Shadow where
  log : List Event

/-- Nothing but the phase of the call has become of the history of `p`. -/
structure Follows (p : Slot) (g : Origin) (k : Kernel) : Prop where
  shadow : ∃ phase, k.shadow p = { g.toShadow with phase }
  log : g.log <:+ k.log

theorem Follows.serial (follows : Follows p g k) : k.serial p = g.serial := by
  obtain ⟨phase, heq⟩ := follows.shadow
  rw [Kernel.serial, heq]

theorem Follows.window (follows : Follows p g k) : (k.shadow p).window = g.window := by
  obtain ⟨phase, heq⟩ := follows.shadow
  rw [heq]

theorem Follows.of_log {k' : Kernel} (follows : Follows p g k) (hshadow : k'.shadow p = k.shadow p)
    (hlog : k'.log = k.log) : Follows p g k' :=
  ⟨by rw [hshadow]; exact follows.shadow, by rw [hlog]; exact follows.log⟩

/-- A process in `wait_process`, awake and with `wait_lock`; its history was `g`. -/
structure Scanning (p : Slot) (g : Origin) (k : Kernel) : Prop where
  alive : (k.state p).Alive
  phase : k.phase p = .scanning
  follows : Follows p g k
  calm : Calm k.state k.parent k.phase

/-- The scan before the slots `rest`. -/
structure Scan (p : Slot) (g : Origin) (rest : List Slot) (havekids : Bool) (k : Kernel) :
    Prop extends Scanning p g k where
  kids : havekids = true → ∃ q, k.parent q = some p
  clean : ∀ q, q ∉ rest → k.parent q = some p → k.state q ≠ .zombie ∧ havekids = true

/-- A zombie child with its own lock held. -/
structure Found (p : Slot) (g : Origin) (q : Slot) (child : Nat) (status : CInt)
    (k : Kernel) : Prop extends Scanning p g k where
  parent : k.parent q = some p
  state : k.state q = .zombie
  serial : k.serial q = child
  xstate : k.xstate q = status

theorem Follows.kept {full : Prop} {k' : Kernel} (follows : Follows p g k)
    (kept : KeptData S full p k k') (hlog : k.log <:+ k'.log) : Follows p g k' := by
  obtain ⟨phase, heq, -⟩ := kept.shadow
  obtain ⟨phase', hg⟩ := follows.shadow
  exact ⟨⟨phase, by rw [heq, hg]⟩, follows.log.trans hlog⟩

theorem stable_scanning (hctx : l.ctx = .proc p) (hwait : l.held .wait) :
    Stable S l (Scanning p g) := by
  intro k k' frame scanning
  have hown := frame.own
  rw [hctx] at hown
  have kept := hown scanning.alive
  have hshadow := kept.same (by rw [scanning.phase]; nofun)
  refine ⟨kept.alive, ?_, scanning.follows.kept kept frame.forever.log, (frame.wait hwait).calm scanning.calm⟩
  rw [Kernel.phase, hshadow]
  exact scanning.phase

theorem stable_scan {rest : List Slot} {havekids : Bool} (hctx : l.ctx = .proc p)
    (hwait : l.held .wait) : Stable S l (Scan p g rest havekids) := by
  intro k k' frame scan
  have kept := frame.wait hwait
  refine ⟨stable_scanning hctx hwait _ _ frame scan.toScanning, ?_, fun q hq hparent => ?_⟩
  · rw [kept.parent]
    exact scan.kids
  · rw [kept.parent] at hparent
    rw [Ne, kept.zombie]
    exact scan.clean q hq hparent

/-- The holder of `p->lock` may rely on every field but the parent. -/
theorem stable_field {β : Type} (f : Proc → β) {b : β}
    (hf : ∀ s parent, f { s with parent } = f s) (hheld : l.held (.proc q)) :
    Stable S l fun k => f (k.proc q) = b := by
  intro k k' frame heq
  obtain ⟨parent, hproc⟩ := (frame.slot q hheld).proc
  rw [hproc, hf]
  exact heq

theorem stable_found {child : Nat} {status : CInt} (hctx : l.ctx = .proc p)
    (hwait : l.held .wait) (hheld : l.held (.proc q)) :
    Stable S l (Found p g q child status) := by
  intro k k' frame found
  have kept := frame.slot q hheld
  refine ⟨stable_scanning hctx hwait _ _ frame found.toScanning, ?_,
    kept.state.trans found.state, kept.serial.trans found.serial, ?_⟩
  · rw [(frame.wait hwait).parent]
    exact found.parent
  · exact stable_field Proc.xstate (fun _ _ => rfl) hheld _ _ frame found.xstate

theorem Found.ne {child : Nat} {status : CInt} (found : Found p g q child status k) :
    p ≠ q := by
  rintro rfl
  have halive := found.alive
  rw [found.state] at halive
  exact halive

/-! ## Freeing the zombie -/

/-- What `free_process` does last to the child `q` of `p`. -/
def Kernel.reap (q p : Slot) (k : Kernel) : Kernel := k.cleared q (some p)

section Reap

variable (q p : Slot) (k : Kernel)

theorem reap_state : (k.reap q p).state = Function.update k.state q .unused := by
  simp [Kernel.reap, Kernel.cleared, Proc.cleared]

theorem reap_parent : (k.reap q p).parent = Function.update k.parent q none := by
  simp [Kernel.reap, Kernel.cleared, Proc.cleared]

theorem reap_xstate : (k.reap q p).xstate = Function.update k.xstate q 0 := by
  simp [Kernel.reap, Kernel.cleared, Proc.cleared]

theorem reap_pid : (k.reap q p).pid = Function.update k.pid q 0 := by
  simp [Kernel.reap, Kernel.cleared, Proc.cleared]

theorem reap_serial : (k.reap q p).serial = k.serial := by
  simp [Kernel.reap, Kernel.cleared, Function.update_eq_self]

theorem reap_creator : (k.reap q p).creator = k.creator := by
  simp [Kernel.reap, Kernel.cleared, Function.update_eq_self]

theorem reap_phase : (k.reap q p).phase =
    Function.update (Function.update k.phase q .out) p
      (.reaped (k.serial q) (k.xstate q)) := by
  simp [Kernel.reap, Kernel.cleared]

end Reap

/-- A running process that holds its own lock not. -/
theorem On.running (on : On l h w) (inv : Inv S.img w) (hctx : l.ctx = .proc p)
    (hown : ¬ l.held (.proc p)) : w.kernel.state p = .running :=
  (inv.cur_state (on.ctx.trans hctx)).resolve_right fun hlk => hown ((on.held _).mp hlk)

section Zombie

variable {child : Nat} {status : CInt}

theorem change_trapframe (inv : Inv S.img w) (on : On l h w) (hheld : l.held (.proc q))
    (hzombie : w.kernel.state q = .zombie) :
    Change S l w (w.kernel.setProc q fun s => { s with trapframe := 0 }) := by
  have hslot := inv.data.slot q
  have hdead : ¬ (w.kernel.state q).Alive := by
    rw [hzombie]
    exact id
  have sw : SlotWrite q w.kernel (w.kernel.setProc q fun s => { s with trapframe := 0 }) :=
    .setProc _
  have hstate : (w.kernel.setProc q fun s => { s with trapframe := 0 }).state =
      w.kernel.state := by simp [Function.update_eq_self]
  have owed : SlotOwed S l.ctx l.held q w.kernel
      (w.kernel.setProc q fun s => { s with trapframe := 0 }) :=
    .setProc (fun _ => ⟨hdead, hdead⟩) rfl (.inl rfl) (fun hlive => hlive) fun _ => .rfl
  have data : Data S.img (w.kernel.setProc q fun s => { s with trapframe := 0 }) :=
    inv.data.setProc (.refl _) rfl (fun _ => rfl) rfl
      ⟨hslot.killed, hslot.unused, hslot.sleeping, hslot.runnable, hslot.entry, hslot.used⟩
  refine sw.change inv on hheld data
    (sw.others owed hheld (.inr (.same rfl rfl rfl)) fun _ => ⟨rfl, rfl⟩)
    (.inr (.inr (by rw [hstate]))) (fun harmed => ?_) (fun _ halive => ?_)
    (.inl (by rw [hstate]))
  · refine (inv.armed harmed).imp (fun hsleep => ?_) id
    rw [hzombie] at hsleep
    cases hsleep.1
  · rw [hstate] at halive
    exact absurd halive hdead

theorem Found.trapframe (found : Found p g q child status k) :
    Found p g q child status (k.setProc q fun s => { s with trapframe := 0 }) := by
  have hstate : (k.setProc q fun s => { s with trapframe := 0 }).state = k.state := by
    simp [Function.update_eq_self]
  have hparent : (k.setProc q fun s => { s with trapframe := 0 }).parent = k.parent := by
    simp [Function.update_eq_self]
  refine ⟨⟨?_, found.phase, found.follows.of_log rfl rfl, ?_⟩, ?_, ?_, found.serial, ?_⟩
  · rw [hstate]
    exact found.alive
  · rw [hstate, hparent]
    exact found.calm
  · rw [hparent]
    exact found.parent
  · rw [hstate]
    exact found.state
  · simpa using found.xstate

theorem Data.reap (data : Data img k) (found : Found p g q child status k)
    (hrunning : k.state p = .running) : Data img (k.reap q p) := by
  have hne := found.ne
  refine ⟨?_, ?_, fun r => ?_, ?_, data.start, fun {r s} hr => ?_, ?_⟩
  · rw [reap_state, reap_parent]
    exact data.tree.free (by rw [found.state]; exact id)
  · rw [reap_state, reap_serial, reap_pid]
    refine data.pids.mono fun r hr => ?_
    have hrq : r ≠ q := by
      rintro rfl
      rw [Function.update_self] at hr
      exact hr
    rw [Function.update_of_ne hrq] at hr ⊢
    exact ⟨hr, rfl⟩
  · have hproc := cleared_proc q (some p) k
    by_cases hr : r = q
    · subst hr
      rw [Kernel.reap, hproc, Function.update_self]
      exact ⟨rfl, fun _ => rfl, by simp [Proc.cleared], by simp [Proc.cleared], False.elim,
        by simp [Proc.cleared]⟩
    · rw [Kernel.reap, hproc, Function.update_of_ne hr]
      have hslot := data.slot r
      by_cases hrp : r = p
      · subst hrp
        refine ⟨hslot.killed, hslot.unused, fun hs => ?_, fun hs => ?_, fun halive hra => ?_,
          fun hs => ?_⟩
        · rw [Kernel.proc_state, hrunning] at hs
          cases hs
        · rw [Kernel.proc_state, hrunning] at hs
          cases hs
        · simpa [Kernel.cleared, Kernel.setShadow_shadow_of_ne _ _ hr] using
            hslot.entry halive hra
        · rw [Kernel.proc_state, hrunning] at hs
          cases hs
      · have hshadow : (k.cleared q (some p)).shadow r = k.shadow r := by
          simp [Kernel.cleared, Kernel.setShadow_shadow_of_ne _ _ hr,
            Kernel.setShadow_shadow_of_ne _ _ hrp]
        rw [hshadow]
        exact hslot
  · rw [reap_state, reap_parent, reap_xstate, reap_serial, reap_creator, reap_phase]
    refine data.hist.reap data.pids found.state found.parent found.alive fun status' => ?_
    rw [found.phase]
    simp
  · rw [reap_parent] at hr
    have hrq : r ≠ q := by
      rintro rfl
      rw [Function.update_self] at hr
      cases hr
    rw [Function.update_of_ne hrq] at hr
    rw [reap_serial]
    exact data.order hr
  · rw [reap_serial]
    exact data.root

theorem change_reap (inv : Inv S.img w) (on : On l h w) (hctx : l.ctx = .proc p)
    (hheld : l.held (.proc q)) (hwait : l.held .wait) (hown : ¬ l.held (.proc p))
    (found : Found p g q child status w.kernel) : Change S l w (w.kernel.reap q p) := by
  have hne := found.ne
  have hrunning := on.running inv hctx hown
  have hcur : w.cur h = .proc p := on.ctx.trans hctx
  let k' := (w.kernel.setProc q Proc.cleared).setShadow q fun s => { s with phase := .out }
  have sw : SlotWrite q w.kernel k' := (SlotWrite.setProc _).trans (.setShadow _)
  have owed : SlotOwed S l.ctx l.held q w.kernel k' := by
    refine ⟨fun _ halive => ?_, fun _ _ halive => ?_, fun r hr hparent => ?_,
      fun hnot => absurd hwait hnot, fun hlive hc => ?_, fun _ _ => id⟩
    · rw [found.state] at halive
      exact halive.elim
    · have hunused : k'.state q = .unused := by simp [k', Proc.cleared]
      rw [hunused] at halive
      exact halive.elim
    · rw [found.parent] at hparent
      cases hparent
      exact absurd hctx hr
    · have hnone := inv.data.hist.orphan hlive hc
      rw [found.parent] at hnone
      cases hnone
  have hstate : k'.state p = .running := by
    simpa [k', hne] using hrunning
  have noted : Others S l.ctx l.held k' (k'.setShadow p fun s =>
      { s with phase := .reaped (w.kernel.serial q) (w.kernel.xstate q) }) :=
    .ownShadow hctx (.inl hstate) rfl rfl rfl fun _ => (by simp)
  have others : Others S l.ctx l.held w.kernel (w.kernel.reap q p) :=
    (sw.others owed hheld (.inr (.same rfl rfl rfl)) fun _ => ⟨rfl, rfl⟩).trans noted
  have hstates {r : Slot} (hr : r ≠ q) : (w.kernel.reap q p).state r = w.kernel.state r := by
    rw [reap_state, Function.update_of_ne hr]
  have hproc {r : Slot} (hr : r ≠ q) : (w.kernel.reap q p).proc r = w.kernel.proc r := by
    rw [Kernel.reap, cleared_proc, Function.update_of_ne hr]
  have hshadow {r : Slot} (hr : r ≠ q) (hrp : r ≠ p) :
      (w.kernel.reap q p).shadow r = w.kernel.shadow r := by
    simp [Kernel.reap, Kernel.cleared, Kernel.setShadow_shadow_of_ne _ _ hr,
      Kernel.setShadow_shadow_of_ne _ _ hrp]
  have hlocked : (w.lock (.proc q)).locked = some h := (on.held _).mpr hheld
  refine .of_others inv on (inv.data.reap found hrunning) others (fun {h' r} hr => .inl ?_)
    (fun {r} harmed => .inl ?_) (fun {r} hr halive => ?_) fun r => ?_
  · refine hstates fun heq => ?_
    subst heq
    rcases inv.cur_state hr with hrun | hlk
    · rw [found.state] at hrun
      cases hrun
    · rw [hlocked] at hlk
      cases hlk
      exact hne (Ctx.proc.inj (hcur.symm.trans hr))
  · rw [reap_phase] at harmed
    have hrp : r ≠ p := by
      rintro rfl
      simp at harmed
    rw [Function.update_of_ne hrp] at harmed
    have hrq : r ≠ q := by
      rintro rfl
      simp at harmed
    rw [Function.update_of_ne hrq] at harmed
    exact ⟨harmed, hstates hrq, by rw [Kernel.chan, hproc hrq]; rfl⟩
  · have hrp : r ≠ p := fun heq => hr h (heq ▸ hcur)
    have hrq : r ≠ q := by
      rintro rfl
      rw [reap_state, Function.update_self] at halive
      exact halive
    rw [hstates hrq] at halive
    exact (inv.fresh hr halive).congr (by rw [Kernel.context, hproc hrq]; rfl)
      (hshadow hrq hrp)
  · by_cases hrq : r = q
    · subst hrq
      have hunused : (w.kernel.reap r p).state r = .unused := by
        rw [reap_state, Function.update_self]
      rw [hunused, found.state]
      exact .inr ⟨(by simp), .reap p hctx found.parent⟩
    · exact .inl (hstates hrq)

/-- After the zombie has been freed. -/
structure Reaped (p : Slot) (g : Origin) (child : Nat) (status : CInt) (k : Kernel) :
    Prop where
  alive : (k.state p).Alive
  phase : k.phase p = .reaped child status
  follows : Follows p g k

theorem stable_reaped (hctx : l.ctx = .proc p) : Stable S l (Reaped p g child status) := by
  intro k k' frame reaped
  have hown := frame.own
  rw [hctx] at hown
  have kept := hown reaped.alive
  have hshadow := kept.same (by rw [reaped.phase]; nofun)
  refine ⟨kept.alive, ?_, reaped.follows.kept kept frame.forever.log⟩
  rw [Kernel.phase, hshadow]
  exact reaped.phase

theorem Found.reaped (found : Found p g q child status k) :
    Reaped p g child status (k.reap q p) ∧
      Calm (k.reap q p).state (k.reap q p).parent (k.reap q p).phase := by
  have hne := found.ne
  refine ⟨⟨?_, ?_, ?_⟩, fun r harmed => ?_⟩
  · rw [reap_state, Function.update_of_ne hne]
    exact found.alive
  · rw [reap_phase, Function.update_self, found.serial, found.xstate]
  · obtain ⟨phase, heq⟩ := found.follows.shadow
    refine ⟨⟨.reaped (k.serial q) (k.xstate q), ?_⟩, found.follows.log⟩
    simp [Kernel.reap, Kernel.cleared, Kernel.setShadow_shadow_of_ne _ _ hne, heq]
  · rw [reap_phase] at harmed
    have hrp : r ≠ p := by
      rintro rfl
      simp at harmed
    rw [Function.update_of_ne hrp] at harmed
    have hrq : r ≠ q := by
      rintro rfl
      simp at harmed
    rw [Function.update_of_ne hrq] at harmed
    rw [reap_state, reap_parent]
    obtain ⟨⟨t, ht⟩, hall⟩ := found.calm r harmed
    refine ⟨⟨t, ?_⟩, fun t' ht' => ?_⟩
    · have htq : t ≠ q := by
        rintro rfl
        rw [found.parent] at ht
        exact hrp (Option.some.inj ht).symm
      rwa [Function.update_of_ne htq]
    · have htq : t' ≠ q := by
        rintro rfl
        rw [Function.update_self] at ht'
        cases ht'
      rw [Function.update_of_ne htq] at ht' ⊢
      exact hall t' ht'

/-- What `wait_process` notes when it returns. -/
def Kernel.returned (p : Slot) (event : Kernel → Event) (k : Kernel) : Kernel :=
  setPhase (some p) .out (k.record (event k))

theorem change_returned {event : Kernel → Event} (inv : Inv S.img w) (on : On l h w)
    (hctx : l.ctx = .proc p) (hrunning : w.kernel.state p = .running)
    (hforks : ∀ creator child, event w.kernel ≠ .forked creator child)
    (hist : Hist w.kernel.state w.kernel.parent w.kernel.xstate w.kernel.initproc
      w.kernel.serial w.kernel.creator (Function.update w.kernel.phase p .out)
      w.kernel.born (event w.kernel :: w.kernel.log)) :
    Change S l w (w.kernel.returned p event) := by
  have hcur : w.cur h = .proc p := on.ctx.trans hctx
  have hlive : (w.kernel.state p).Live := by
    rw [hrunning]
    trivial
  have hbooted := inv.data.booted hlive
  have hserial : (w.kernel.returned p event).serial = w.kernel.serial := by
    simp [Kernel.returned, setPhase, Function.update_eq_self]
  have hcreator : (w.kernel.returned p event).creator = w.kernel.creator := by
    simp [Kernel.returned, setPhase, Function.update_eq_self]
  have hphase : (w.kernel.returned p event).phase =
      Function.update w.kernel.phase p .out := by
    simp [Kernel.returned, setPhase]
  have hshadow {r : Slot} (hr : r ≠ p) :
      (w.kernel.returned p event).shadow r = w.kernel.shadow r := by
    rw [Kernel.returned, setPhase, Kernel.setShadow_shadow_of_ne _ _ hr, Kernel.record_shadow]
  have data : Data S.img (w.kernel.returned p event) := by
    refine ⟨inv.data.tree, ?_, fun r => ?_, ?_,
      fun hb => absurd (hbooted.symm.trans hb) (by simp), ?_, ?_⟩
    · rw [hserial]
      exact inv.data.pids
    · have hslot := inv.data.slot r
      by_cases hr : r = p
      · subst hr
        simp only [Kernel.returned, setPhase, Kernel.setShadow_proc, Kernel.record_proc,
          Kernel.setShadow_shadow_self, Kernel.record_shadow]
        exact ⟨hslot.killed, hslot.unused, fun _ => .inl rfl, nofun, hslot.entry, hslot.used⟩
      · rw [hshadow hr]
        exact hslot
    · rw [hserial, hcreator, hphase]
      exact hist
    · rw [hserial]
      exact inv.data.order
    · rw [hserial]
      exact inv.data.root
  have noted : Others S l.ctx l.held (w.kernel.record (event w.kernel))
      ((w.kernel.record (event w.kernel)).setShadow p fun s => { s with phase := .out }) :=
    .ownShadow hctx (.inl hrunning) rfl rfl rfl fun _ => nofun
  refine .of_others inv on data ((others_record hforks).trans noted) (fun _ => .inl rfl)
    (fun {r} harmed => .inl ?_) (fun {r} hr halive => ?_) fun _ => .inl rfl
  · rw [hphase] at harmed
    have hrp : r ≠ p := by
      rintro rfl
      simp at harmed
    rw [Function.update_of_ne hrp] at harmed
    exact ⟨harmed, rfl, rfl⟩
  · have hrp : r ≠ p := fun heq => hr h (heq ▸ hcur)
    exact (inv.fresh hr halive).congr rfl (hshadow hrp)

/-- Back from `wait_process`. -/
structure Returned (p : Slot) (g : Origin) (k : Kernel) : Prop where
  alive : (k.state p).Alive
  phase : k.phase p = .out
  follows : Follows p g k

theorem stable_returned (hctx : l.ctx = .proc p) : Stable S l (Returned p g) := by
  intro k k' frame returned
  have hown := frame.own
  rw [hctx] at hown
  have kept := hown returned.alive
  have hshadow := kept.same (by rw [returned.phase]; nofun)
  refine ⟨kept.alive, ?_, returned.follows.kept kept frame.forever.log⟩
  rw [Kernel.phase, hshadow]
  exact returned.phase

theorem returned_returned (event : Kernel → Event) (halive : (k.state p).Alive)
    (follows : Follows p g k) :
    Returned p g (k.returned p event) ∧ Since g.log (event k) (k.returned p event) := by
  obtain ⟨phase, heq⟩ := follows.shadow
  have since : Since g.log (event k) (k.record (event k)) := .record follows.log
  refine ⟨⟨halive, by simp [Kernel.returned, setPhase], ⟨.out, ?_⟩,
    follows.log.trans (List.suffix_cons ..)⟩, since⟩
  simp [Kernel.returned, setPhase, heq]

end Zombie

/-! ## The scan -/

section Scan

variable [DecidableEq H]

theorem Triple.reapChild {pid : CInt} {child : Nat} {status : CInt} {stored : Option CInt}
    (hpid : pid = pidOf child) (hstored : stored = none ∨ stored = some status) :
    Triple S (.ofProc p [.proc q, .wait] sie) (Found p g q child status) (do
      Process.freeProcess S.img q (some p)
      Process.release (.proc q)
      Process.release .wait
      Process.write fun k => setPhase (some p) .out
        (k.record (.waited (k.shadow p).serial child pid stored)) : Code H Unit)
      (fun _ => .ofProc p [] sie) fun _ k =>
        Returned p g k ∧ Since g.log (.waited g.serial child pid stored) k := by
  have hboth : ∀ lk ∈ [Lock.proc q, .wait],
      Local.held (.ofProc p [.proc q, .wait] sie : Local H) lk := fun _ => .inl
  have hwait : Local.held (.ofProc p [.wait] sie : Local H) .wait :=
    .inl (by simp [Local.ofProc])
  have hfound : Stable S (.ofProc p [.proc q, .wait] sie : Local H)
      (Found p g q child status) := stable_found rfl (hboth _ (by simp)) (hboth _ (by simp))
  have free : Triple S (.ofProc p [.proc q, .wait] sie) (Found p g q child status)
      (Process.freeProcess S.img q (some p) : Code H Unit)
      (fun _ => .ofProc p [.proc q, .wait] sie) fun _ k => (Reaped p g child status k ∧
        Calm k.state k.parent k.phase) ∧ p ≠ q := by
    refine .freeProcess hfound rfl rfl (by simp [Local.ofProc]) rfl
      (fun h w inv on found => ⟨change_trapframe inv on (hboth _ (by simp)) found.state,
        found.trapframe⟩) fun h w inv on found => ⟨?_, found.reaped, found.ne⟩
    refine change_reap inv on rfl (hboth _ (by simp)) (hboth _ (by simp)) ?_ found
    simpa [Local.held, Local.ofProc] using found.ne
  have hcalm : ∀ {l' : Local H}, l'.ctx = .proc p → l'.held .wait → Stable S l' fun k =>
      Reaped p g child status k ∧ Calm k.state k.parent k.phase := fun hctx hheld =>
    (stable_reaped hctx).and fun k k' frame calm => (frame.wait hheld).calm calm
  have hreaped : Stable S (.ofProc p [] sie : Local H) (Reaped p g child status) :=
    stable_reaped rfl
  refine free.bind fun _ => .known fun hne => ?_
  refine Triple.bind (m := fun _ => .ofProc p [.wait] sie)
    (Triple.releaseLast (l := .ofProc p [.wait] sie) (hcalm rfl (hboth _ (by simp)))
      (hcalm rfl hwait) (fun _ => id) rfl rfl rfl fun h w inv on hf => ?_) fun _ => ?_
  · refine on.releasable inv (by simp) (fun r hr heq => ?_) fun r hr _ harmed => ?_
    · cases hr
      cases heq
      exact absurd rfl hne
    · cases hr
      rw [hf.1.phase] at harmed
      cases harmed
  refine Triple.bind (m := fun _ => .ofProc p [] sie)
    (Triple.releaseLast (l := .ofProc p [] sie) (hcalm rfl hwait)
      hreaped (fun _ => And.left) rfl rfl rfl fun h w inv on hf => ?_) fun _ => ?_
  · refine on.releasable inv (fun _ => hf.2) (fun _ _ => (by simp)) fun r hr _ harmed => ?_
    cases hr
    rw [hf.1.phase] at harmed
    cases harmed
  refine .write (stable_reaped rfl) fun h w inv on reaped => ?_
  have hrunning := on.running inv rfl (by simp [Local.held, Local.ofProc])
  have change : Change S (.ofProc p [] sie) w
      (w.kernel.returned p fun k => .waited (k.serial p) child pid stored) := by
    refine change_returned inv on rfl hrunning (by simp) ?_
    rw [hpid]
    exact inv.data.hist.wait reaped.alive reaped.phase hstored
  have returned := returned_returned (fun k => .waited (k.serial p) child pid stored)
    reaped.alive reaped.follows
  rw [reaped.follows.serial] at returned
  exact ⟨change, returned⟩

/-- Where the scan leaves the hart. -/
def Local.scanned (p : Slot) (sie : Bool) : Sum (CInt × Option CInt) Bool → Local H
  | .inl _ => .ofProc p [] sie
  | .inr _ => .ofProc p [.wait] sie

def Scanned (p : Slot) (g : Origin) (status : Bool) (k : Kernel) :
    Sum (CInt × Option CInt) Bool → Prop
  | .inl answer => Returned p g k ∧ Reports g.log g.serial status k answer
  | .inr havekids => Scan p g [] havekids k

/-- A zombie child with its lock held is found by its serial and freed. -/
theorem Triple.foundChild (status : Bool) :
    Triple S (.ofProc p [.proc q, .wait] sie) (fun k => Scanning p g k ∧
      k.parent q = some p ∧ k.state q = .zombie) (do
      let pid ← Process.readProc q (·.pid)
      let xstate ← Process.readProc q (·.xstate)
      let stored := if status then some xstate else none
      let child ← Process.read fun k => (k.shadow q).serial
      Process.freeProcess S.img q (some p)
      Process.release (.proc q)
      Process.release .wait
      Process.write fun k => setPhase (some p) .out
        (k.record (.waited (k.shadow p).serial child pid stored))
      return .inl (pid, stored) : Code H (Sum (CInt × Option CInt) Bool))
      (Local.scanned p sie) fun r k => Scanned p g status k r := by
  have hboth : ∀ lk ∈ [Lock.proc q, .wait],
      Local.held (.ofProc p [.proc q, .wait] sie : Local H) lk := fun _ => .inl
  have hheld := hboth (.proc q) (by simp)
  have hzombie : Stable S (.ofProc p [.proc q, .wait] sie : Local H) fun k =>
      Scanning p g k ∧ k.parent q = some p ∧ k.state q = .zombie :=
    (stable_scanning rfl (hboth _ (by simp))).and
      ((stable_parent (hboth _ (by simp))).and (stable_state hheld))
  refine Triple.bind (.readProc (K := fun pid k => (Scanning p g k ∧ k.parent q = some p ∧
    k.state q = .zombie) ∧ (k.proc q).pid = pid) hzombie fun _ _ _ _ hf => ⟨hf, rfl⟩)
    fun pid => ?_
  have hpid := hzombie.and
    (stable_field (S := S) Proc.pid (b := pid) (fun _ _ => rfl) hheld)
  refine Triple.bind (.readProc (K := fun xstate k => ((Scanning p g k ∧ k.parent q = some p ∧
    k.state q = .zombie) ∧ (k.proc q).pid = pid) ∧ (k.proc q).xstate = xstate) hpid
    fun _ _ _ _ hf => ⟨hf, rfl⟩) fun xstate => ?_
  have hxstate := hpid.and
    (stable_field (S := S) Proc.xstate (b := xstate) (fun _ _ => rfl) hheld)
  refine Triple.bind (.read (K := fun child k => Found p g q child xstate k ∧
    pid = pidOf child) hxstate fun h w inv on hf => ?_) fun child => .known fun hchild => ?_
  · obtain ⟨⟨⟨scanning, hparent, hstate⟩, hpid⟩, hx⟩ := hf
    refine ⟨⟨scanning, hparent, hstate, rfl, hx⟩, hpid.symm.trans (inv.data.pids.pid ?_)⟩
    rw [hstate]
    trivial
  let stored := if status then some xstate else none
  have hstored : stored = none ∨ stored = some xstate := by
    cases status
    · exact .inl rfl
    · exact .inr rfl
  have free : Triple S (.ofProc p [.proc q, .wait] sie) (Found p g q child xstate) _
    (fun _ => .ofProc p [] sie) fun _ k =>
      Returned p g k ∧ Since g.log (.waited g.serial child pid stored) k :=
    Triple.reapChild hchild hstored
  have hsome : stored.isSome = status := by
    cases status <;> rfl
  have answer : Triple S (.ofProc p [] sie)
      (fun k => Returned p g k ∧ Since g.log (.waited g.serial child pid stored) k)
      (Pure.pure (.inl (pid, stored)) : Code H (Sum (CInt × Option CInt) Bool))
      (Local.scanned p sie) fun r k => Scanned p g status k r :=
    .pure (fun _ hf => ⟨hf.1, .child hf.2 hsome⟩) rfl
  have whole := free.bind fun _ => answer
  simp only [bind_assoc] at whole
  exact whole

theorem Triple.waitScan {status : Bool} {ps : List Slot} {havekids : Bool} :
    Triple S (.ofProc p [.wait] sie) (Scan p g ps havekids)
      (Process.waitScan S.img (some p) status ps havekids : Code H _)
      (Local.scanned p sie) fun r k => Scanned p g status k r := by
  have hwait : Local.held (.ofProc p [.wait] sie : Local H) .wait :=
    .inl (by simp [Local.ofProc])
  induction ps generalizing havekids with
  | nil => exact .pure (fun _ => id) rfl
  | cons q rest ih =>
    have hscan : Stable S (.ofProc p [.wait] sie) (Scan p g (q :: rest) havekids) :=
      stable_scan rfl hwait
    refine Triple.bind (.readProc (K := fun parent k =>
      Scan p g (q :: rest) havekids k ∧ k.parent q = parent) hscan
      fun _ _ _ _ hf => ⟨hf, rfl⟩) fun parent => .ite (fun heq => ?_) fun hne => ?_
    · subst heq
      have hchild : Stable S (.ofProc p [.wait] sie) fun k =>
          Scan p g (q :: rest) havekids k ∧ k.parent q = some p :=
        hscan.and (stable_parent hwait)
      have hboth : ∀ lk ∈ [Lock.proc q, .wait],
          Local.held (.ofProc p [.proc q, .wait] sie : Local H) lk := fun _ => .inl
      refine Triple.bind (m := fun _ => .ofProc p [.proc q, .wait] sie)
        ((Triple.acquire hchild rfl rfl (by simp [Local.ofProc])).mono (fun _ => id)
          fun _ _ => And.left) fun _ => ?_
      refine Triple.bind (.readProc (K := fun s k => (Scan p g (q :: rest) havekids k ∧
        k.parent q = some p) ∧ k.state q = s) (hchild.cons _) fun _ _ _ _ hf => ⟨hf, rfl⟩)
        fun s => .ite (fun hs => ?_) fun hs => ?_
      · subst hs
        exact (Triple.foundChild status).pre fun k hk => ⟨hk.1.1.toScanning, hk.1.2, hk.2⟩
      · have hstate : Stable S (.ofProc p [.proc q, .wait] sie) fun k =>
            (Scan p g (q :: rest) havekids k ∧ k.parent q = some p) ∧ k.state q = s :=
          (hchild.cons (.proc q)).and (stable_state (hboth _ (by simp)))
        refine Triple.bind (m := fun _ => .ofProc p [.wait] sie)
          (G := fun _ => Scan p g rest true) (Triple.releaseLast (l := .ofProc p [.wait] sie)
          hstate (stable_scan rfl hwait) (fun k hk => ?_) rfl rfl rfl
          fun h w inv on hk => ?_) fun _ => ih
        · obtain ⟨⟨scan, hparent⟩, hstate⟩ := hk
          refine ⟨scan.toScanning, fun _ => ⟨q, hparent⟩, fun r hr hrp => ?_⟩
          by_cases hrq : r = q
          · rw [hrq, hstate]
            exact ⟨hs, rfl⟩
          · exact ⟨(scan.clean r (by simp [hrq, hr]) hrp).1, rfl⟩
        · refine on.releasable inv (by simp) (fun r hr heq => ?_) fun r hr _ harmed => ?_
          · cases hr
            cases heq
            exact absurd (inv.data.order hk.1.2) (lt_irrefl _)
          · cases hr
            rw [hk.1.1.phase] at harmed
            cases harmed
    · refine ih.pre fun k hk => ⟨hk.1.toScanning, hk.1.kids, fun r hr hrp => ?_⟩
      obtain ⟨scan, hparent⟩ := hk
      by_cases hrq : r = q
      · rw [hrq, hparent] at hrp
        exact absurd hrp hne
      · exact scan.clean r (by simp [hrq, hr]) hrp

end Scan

/-! ## wait_process -/

theorem change_setPhase {x : Phase} (inv : Inv S.img w) (on : On l h w)
    (hctx : l.ctx = .proc p) (hrunning : w.kernel.state p = .running)
    (hold : ∀ status, w.kernel.phase p ≠ .exiting status)
    (hexiting : ∀ status, x ≠ .exiting status)
    (hreaped : ∀ child status, x ≠ .reaped child status)
    (harmed : x = .armed → l.held .wait) :
    Change S l w (setPhase (some p) x w.kernel) := by
  have hslot := inv.data.slot p
  have data : Data S.img (w.kernel.setShadow p fun s => { s with phase := x }) := by
    refine inv.data.setShadow rfl rfl (.inr ⟨hold, hexiting, hreaped⟩)
      ⟨hslot.killed, hslot.unused, fun hs => ?_, fun hs => ?_, hslot.entry, hslot.used⟩
    · rw [Kernel.proc_state, hrunning] at hs
      cases hs
    · rw [Kernel.proc_state, hrunning] at hs
      cases hs
  exact change_ownShadow inv on hctx data rfl rfl rfl fun hx => .inr (harmed hx)

/-- A process that has decided to sleep for a child, and may have been woken since. -/
structure Dozing (p : Slot) (g : Origin) (k : Kernel) : Prop where
  alive : (k.state p).Alive
  phase : k.phase p = .armed ∨ k.phase p = .woken
  follows : Follows p g k

theorem stable_dozing (hctx : l.ctx = .proc p) : Stable S l (Dozing p g) := by
  intro k k' frame dozing
  have hown := frame.own
  rw [hctx] at hown
  have kept := hown dozing.alive
  refine ⟨kept.alive, ?_, dozing.follows.kept kept frame.forever.log⟩
  obtain ⟨phase, heq, hphase⟩ := kept.shadow
  rw [Kernel.phase, heq]
  rcases hphase with rfl | ⟨-, rfl⟩
  · exact dozing.phase
  · exact .inr rfl

theorem Dozing.setState (dozing : Dozing p g k) {state : ProcState} (halive : state.Alive)
    (chan : Option Chan) : Dozing p g (k.setProc p (Proc.setState state chan)) :=
  ⟨by simpa [Proc.setState] using halive, dozing.phase, dozing.follows.of_log rfl rfl⟩

theorem Follows.setPhase {x : Phase} (follows : Follows p g k) :
    Follows p g (Process.setPhase (some p) x k) := by
  obtain ⟨phase, heq⟩ := follows.shadow
  exact ⟨⟨x, by simp [Process.setPhase, heq]⟩, follows.log⟩

/-- A process with children, none of them a zombie, may sleep for one. -/
theorem Scan.calm_armed (scan : Scan p g [] true k) :
    Calm (setPhase (some p) .armed k).state (setPhase (some p) .armed k).parent
      (setPhase (some p) .armed k).phase := by
  intro r harmed
  by_cases hrp : r = p
  · subst hrp
    exact ⟨scan.kids rfl, fun t ht => (scan.clean t (by simp) ht).1⟩
  · simp only [setPhase, Kernel.setShadow_phase, Function.update_of_ne hrp] at harmed
    exact scan.calm r harmed

theorem calm_setPhase {x : Phase} (calm : Calm k.state k.parent k.phase) (hx : x ≠ .armed) :
    Calm (setPhase (some p) x k).state (setPhase (some p) x k).parent
      (setPhase (some p) x k).phase := by
  intro r harmed
  by_cases hrp : r = p
  · subst hrp
    simp only [setPhase, Kernel.setShadow_phase, Function.update_self] at harmed
    exact absurd harmed hx
  · simp only [setPhase, Kernel.setShadow_phase, Function.update_of_ne hrp] at harmed
    exact calm r harmed

section Wait

variable [DecidableEq H]

theorem Triple.childless (status : Bool) :
    Triple S (.ofProc p [.wait] sie) (Scan p g [] false) (do
      Process.write fun k => setPhase (some p) .out
        (k.record (.childless (k.shadow p).serial (k.children p)))
      Process.release .wait
      return (-1, none) : Code H (CInt × Option CInt)) (fun _ => .ofProc p [] sie)
      fun answer k => Returned p g k ∧ Reports g.log g.serial status k answer := by
  have hwait : Local.held (.ofProc p [.wait] sie : Local H) .wait :=
    .inl (by simp [Local.ofProc])
  have hsince : ∀ {l' : Local H}, Stable S l' fun k => Since g.log (.childless g.serial []) k :=
    fun k k' frame since => since.mono frame.forever.log
  have hreturned : ∀ {l' : Local H}, l'.ctx = .proc p → Stable S l' fun k =>
      Returned p g k ∧ Since g.log (.childless g.serial []) k := fun hctx =>
    (stable_returned hctx).and hsince
  have hcalm : Stable S (.ofProc p [.wait] sie : Local H) fun k =>
      (Returned p g k ∧ Since g.log (.childless g.serial []) k) ∧
        Calm k.state k.parent k.phase :=
    (hreturned rfl).and fun k k' frame calm => (frame.wait hwait).calm calm
  refine Triple.bind (G := fun _ k => (Returned p g k ∧
      Since g.log (.childless g.serial []) k) ∧ Calm k.state k.parent k.phase)
    (.write (stable_scan rfl hwait) fun h w inv on scan => ?_) fun _ => ?_
  · have hrunning := on.running inv rfl (by simp [Local.held, Local.ofProc])
    have hnone : w.kernel.children p = [] := by
      refine List.filter_eq_nil_iff.mpr fun q _ hq => ?_
      have hkids := (scan.clean q (by simp) (of_decide_eq_true hq)).2
      cases hkids
    have hphase : ∀ status, w.kernel.phase p ≠ .exiting status := fun status => by
      rw [scan.phase]
      simp
    have mute : (Event.childless (w.kernel.serial p) (w.kernel.children p)).Mute := trivial
    have hok : EventOk (w.kernel.initproc.map w.kernel.serial) w.kernel.log
      (.childless (w.kernel.serial p) (w.kernel.children p)) := hnone
    have change : Change S (.ofProc p [.wait] sie) w
        (w.kernel.returned p fun k => .childless (k.serial p) (k.children p)) :=
      change_returned inv on rfl hrunning (by simp)
        ((inv.data.hist.mute mute hok).setPhase hphase (by simp) (by simp))
    have returned := returned_returned (fun k => .childless (k.serial p) (k.children p))
      scan.alive scan.follows
    rw [scan.follows.serial, hnone] at returned
    exact ⟨change, returned, calm_setPhase scan.calm (by simp)⟩
  refine Triple.bind (m := fun _ => .ofProc p [] sie) (Triple.releaseLast
    (l := .ofProc p [] sie) hcalm (hreturned rfl) (fun _ => And.left) rfl rfl rfl
    fun h w inv on hf => ?_) fun _ => .pure (fun _ hf => ⟨hf.1, .childless hf.2⟩) rfl
  refine on.releasable inv (fun _ => hf.2) (fun _ _ => (by simp)) fun r hr _ harmed => ?_
  cases hr
  rw [hf.1.1.phase] at harmed
  cases harmed

theorem Triple.waitMore {status : Bool} (hg : g.window = false) :
    Triple S (.ofProc p [.wait] sie) (Scan p g [] true) (do
      Process.write (setPhase (some p) .armed)
      Process.sleep S.img (some (.proc p)) (some .wait)
      Process.write (setPhase (some p) .scanning)
      .perform (.waitLoop (some p) status) : Code H (CInt × Option CInt))
      (fun _ => .ofProc p [] sie)
      fun answer k => Returned p g k ∧ Reports g.log g.serial status k answer := by
  have hwait : Local.held (.ofProc p [.wait] sie : Local H) .wait :=
    .inl (by simp [Local.ofProc])
  have window {k : Kernel} (follows : Follows p g k) : (k.shadow p).window = false :=
    follows.window.trans hg
  refine Triple.bind (G := fun _ k => Dozing p g k ∧ MaySleep p (some (.proc p)) .wait k ∧
    Acquired (.ofProc p [.wait] sie : Local H) .wait k)
    (.write (stable_scan rfl hwait) fun h w inv on scan => ?_) fun _ => ?_
  · have hrunning := on.running inv rfl (by simp [Local.held, Local.ofProc])
    have hphase : (setPhase (some p) .armed w.kernel).phase p = .armed := by simp [setPhase]
    refine ⟨change_setPhase inv on rfl hrunning (fun status => ?_) (by simp) (by simp)
      fun _ => hwait, ⟨scan.alive, .inl hphase, scan.follows.setPhase⟩,
      ⟨scan.alive, .inr ⟨hphase, hrunning, rfl, rfl⟩⟩, fun _ => scan.calm_armed, (by simp)⟩
    rw [scan.phase]
    simp
  refine (Triple.sleep (stable_dozing rfl) (fun k state chan dozing halive =>
    dozing.setState halive chan) fun k dozing _ => window dozing.follows).bind fun _ => ?_
  have hawake : Stable S (.ofProc p [.wait] sie) fun k => Dozing p g k ∧
      Acquired (.ofProc p [.wait] sie : Local H) .wait k ∧ Awake p k :=
    (stable_dozing rfl).and ((Acquired.stable hwait).and (stable_awake rfl))
  refine Triple.bind (G := fun _ => Scanning p g) (.write hawake fun h w inv on hf => ?_)
    fun _ => .call rfl (stable_scanning rfl hwait) (fun h w _ _ scanning => ?_)
      fun w _ h' w' _ scanning hpost => ?_
  · obtain ⟨dozing, acquired, awake⟩ := hf
    have hrunning := on.running inv rfl (by simp [Local.held, Local.ofProc])
    refine ⟨change_setPhase inv on rfl hrunning (fun status => ?_) (by simp) (by simp) (by simp),
      dozing.alive, by simp [setPhase], dozing.follows.setPhase,
      calm_setPhase (acquired.calm rfl) (by simp)⟩
    rcases dozing.phase with heq | heq <;> rw [heq] <;> simp
  · exact ⟨p, sie, rfl, rfl, scanning.alive, scanning.phase, window scanning.follows,
      scanning.calm⟩
  · obtain ⟨q, sie', hq, hl, on', halive, hphase, ⟨phase, hshadow⟩, reports⟩ := hpost
    cases hq
    cases hl
    obtain ⟨phase', heq⟩ := scanning.follows.shadow
    rw [scanning.follows.serial] at reports
    exact ⟨on', ⟨halive, hphase, ⟨phase, by rw [hshadow, heq]⟩,
      scanning.follows.log.trans reports.suffix⟩, reports.before scanning.follows.log⟩

theorem Triple.waitBody {status : Bool} (hg : g.window = false) :
    Triple S (.ofProc p [.wait] sie) (Scanning p g)
      (Process.waitBody S.img (some p) status) (fun _ => .ofProc p [] sie)
      fun answer k => Returned p g k ∧ Reports g.log g.serial status k answer := by
  have hwait : Local.held (.ofProc p [.wait] sie : Local H) .wait :=
    .inl (by simp [Local.ofProc])
  have start : Triple S (.ofProc p [.wait] sie) (Scanning p g)
      (Process.waitScan S.img (some p) status slots false : Code H _)
      (Local.scanned p sie) fun r k => Scanned p g status k r :=
    Triple.waitScan.pre fun k scanning =>
      ⟨scanning, (by simp), fun q hq => absurd (List.mem_finRange q) hq⟩
  refine start.bind fun r => ?_
  cases r with
  | inl result => exact .pure (fun _ hf => hf) rfl
  | inr havekids =>
    have hscan : Stable S (.ofProc p [.wait] sie) (Scan p g [] havekids) :=
      stable_scan rfl hwait
    cases havekids with
    | false =>
      exact .ite (by simp) fun _ => Triple.childless status
    | true =>
      refine .ite (fun _ => ?_) fun hnot => absurd rfl hnot
      -- nothing in the kernel sets `killed`
      refine Triple.bind (m := fun _ => .ofProc p [.wait] sie)
        (G := fun q k => Scan p g [] true k ∧ q = p) (.pure (fun _ hf => ⟨hf, rfl⟩) rfl)
        fun q => .known fun hq => ?_
      subst hq
      refine Triple.bind (.readProc (K := fun (n : CInt) k => Scan q g [] true k ∧ n = 0)
        hscan fun h w inv _ hf => ⟨hf, (inv.data.slot q).killed⟩) fun n => .known fun hn => ?_
      subst hn
      exact Triple.waitMore hg

omit [DecidableEq H] in
theorem Returned.atHome (returned : Returned p g k) (hwindow : g.window = false)
    (hsie : g.calledOff = false → sie = (g.startedOn || g.calledOn)) : AtHome p sie k := by
  obtain ⟨phase, heq⟩ := returned.follows.shadow
  refine ⟨returned.alive, returned.phase, ?_, ?_⟩
  · rw [heq, hwindow]
  · rw [SieOk, heq]
    exact hsie

theorem Triple.waitProcess {status : Bool} :
    Triple S (.ofProc p [] sie) (AtHome p sie) (Process.waitProcess status)
      (fun _ => .ofProc p [] sie) fun _ => AtHome p sie := by
  have hwait : Local.held (.ofProc p [.wait] sie : Local H) .wait :=
    .inl (by simp [Local.ofProc])
  have hhome : Stable S (.ofProc p [] sie : Local H) (AtHome p sie) := stable_atHome rfl
  refine (Triple.myproc hhome rfl).bind fun q => .known fun hq => ?_
  subst hq
  refine Triple.bind (m := fun _ => .ofProc p [.wait] sie)
    (Triple.acquire hhome rfl rfl (by simp [Local.ofProc])) fun _ => ?_
  have hlocked : Stable S (.ofProc p [.wait] sie) fun k => AtHome p sie k ∧
      Acquired (.ofProc p [] sie : Local H) .wait k :=
    (hhome.withLocks _ _).and (Acquired.stable hwait)
  refine Triple.bind (m := fun _ => .ofProc p [.wait] sie)
    (G := fun _ k => ∃ g, Scanning p g k ∧ g.window = false ∧
      (g.calledOff = false → sie = (g.startedOn || g.calledOn)))
    (.write hlocked fun h w inv on hf => ?_)
    fun _ => .exists_pre fun g => .known fun hg => ?_
  · obtain ⟨home, acquired⟩ := hf
    have hrunning := on.running inv rfl (by simp [Local.held, Local.ofProc])
    refine ⟨change_setPhase inv on rfl hrunning (fun status => ?_) (by simp) (by simp) (by simp),
      ⟨w.kernel.shadow p, w.kernel.log⟩, ⟨home.alive, by simp [setPhase, Local.ofProc],
        .setPhase ⟨⟨_, rfl⟩, List.suffix_rfl⟩,
      calm_setPhase (acquired.calm rfl) (by simp)⟩, home.window, home.sie⟩
    rw [home.phase]
    simp
  · refine .call rfl (stable_scanning rfl hwait) (fun h w _ _ scanning => ?_)
      fun w _ h' w' _ scanning hpost => ?_
    · exact ⟨p, sie, rfl, rfl, scanning.alive, scanning.phase,
        scanning.follows.window.trans hg.1, scanning.calm⟩
    · obtain ⟨q, sie', hq, hl, on', halive, hphase, ⟨phase, hshadow⟩, reports⟩ := hpost
      cases hq
      cases hl
      obtain ⟨phase', heq⟩ := scanning.follows.shadow
      have returned : Returned p g w'.kernel := ⟨halive, hphase,
        ⟨phase, by rw [hshadow, heq]⟩, scanning.follows.log.trans reports.suffix⟩
      exact ⟨on', returned.atHome hg.1 hg.2⟩

theorem waitLoop_spec {r : Option Slot} {status : Bool} (inv : Inv S.img w)
    (hpre : (logic S).pre (.waitLoop r status : Instr H (CInt × Option CInt)) h w) :
    (logic S).wp (Process.waitBody S.img r status) (fun answer h' w' =>
      (logic S).post (.waitLoop r status : Instr H _) h w answer h' w') h w := by
  refine call_of_triple inv hpre fun l on hp => ?_
  obtain ⟨q, sie, rfl, rfl, halive, hphase, hwindow, hcalm⟩ := hp
  have scanning : Scanning q ⟨w.kernel.shadow q, w.kernel.log⟩ w.kernel :=
    ⟨halive, hphase, ⟨⟨_, rfl⟩, List.suffix_rfl⟩, hcalm⟩
  exact (Triple.waitBody hwindow).wp inv on scanning fun answer h' w' _ on' hf =>
    ⟨q, sie, rfl, rfl, on', hf.1.alive, hf.1.phase, hf.1.follows.shadow, hf.2⟩

end Wait

end Xv6Kernel.Process
