import Xv6Kernel.Process.Starting

/-!
# `exit_process`

Under `wait_lock` an exiting process gives its children to `initproc` and wakes the
parents that have a zombie to reap.  It becomes a zombie under its own lock, which its
scheduler gives back.
-/

namespace Xv6Kernel.Process

open Xv6Kernel.Foundation Xv6Kernel.Mm

variable {H : Type} {S : Setting H} {l : Local H} {F : Kernel → Prop} {h : H}
  {w : World H} {p q : Slot} {k : Kernel} {sie : Bool} {status : CInt} {img : Image}

/-- A process inside `exit_process`. -/
structure Leaving (p : Slot) (status : CInt) (k : Kernel) : Prop where
  alive : (k.state p).Alive
  phase : k.phase p = .exiting status
  window : (k.shadow p).window = false
  init : k.initproc ≠ some p

theorem Leaving.not_armed (leaving : Leaving p status k) : k.phase p ≠ .armed := by
  rw [leaving.phase]
  nofun

theorem stable_leaving (hctx : l.ctx = .proc p) : Stable S l (Leaving p status) := by
  intro k k' frame leaving
  have hown := frame.own
  rw [hctx] at hown
  have kept := hown leaving.alive
  have hshadow := kept.same leaving.not_armed
  refine ⟨kept.alive, ?_, ?_, ?_⟩
  · rw [Kernel.phase, hshadow]
    exact leaving.phase
  · rw [hshadow, leaving.window]
  · rw [kept.initproc]
    exact leaving.init

theorem Data.booted (data : Data img k) (hlive : (k.state p).Live) : k.booted = true := by
  cases hb : k.booted with
  | true => rfl
  | false => exact absurd hlive (data.tree.unbooted hb p)

/-! ## The call -/

theorem Data.recordExit (data : Data img k) (hrunning : k.state p = .running)
    (hphase : k.phase p = .out) : Data img (Kernel.recordExit (some p) status k) := by
  have hlive : (k.state p).Live := by
    rw [hrunning]
    trivial
  have hserial : (Kernel.recordExit (some p) status k).serial = k.serial := by
    simp [Kernel.recordExit, Function.update_eq_self]
  have hcreator : (Kernel.recordExit (some p) status k).creator = k.creator := by
    simp [Kernel.recordExit, Function.update_eq_self]
  have hphase' : (Kernel.recordExit (some p) status k).phase =
      Function.update k.phase p (.exiting status) := by
    simp [Kernel.recordExit]
  have hbooted := data.booted hlive
  refine ⟨data.tree, ?_, fun r => ?_, ?_,
    fun hb => absurd (hbooted.symm.trans hb) (by simp), ?_, ?_⟩
  · rw [hserial]
    exact data.pids
  · by_cases hr : r = p
    · subst hr
      have hslot := data.slot r
      simp only [Kernel.recordExit, Kernel.record_proc, Kernel.setShadow_proc,
        Kernel.record_shadow, Kernel.setShadow_shadow_self]
      refine ⟨hslot.killed, hslot.unused, fun hs => ?_, nofun, hslot.entry, hslot.used⟩
      rw [Kernel.proc_state, hrunning] at hs
      cases hs
    · simp only [Kernel.recordExit, Kernel.record_proc, Kernel.setShadow_proc,
        Kernel.record_shadow, Kernel.setShadow_shadow_of_ne _ _ hr]
      exact data.slot r
  · rw [hserial, hcreator, hphase']
    refine data.hist.exit data.pids hlive (by rw [hrunning]; nofun) fun status' => ?_
    rw [hphase]
    nofun
  · rw [hserial]
    exact data.order
  · rw [hserial]
    exact data.root

theorem change_recordExit (inv : Inv S.img w) (on : On l h w) (hctx : l.ctx = .proc p)
    (hrunning : w.kernel.state p = .running) (hphase : w.kernel.phase p = .out) :
    Change S l w (Kernel.recordExit (some p) status w.kernel) := by
  have hcur : w.cur h = .proc p := on.ctx.trans hctx
  have hne {q : Slot} (hq : q ≠ p) :
      (Kernel.recordExit (some p) status w.kernel).shadow q = w.kernel.shadow q := by
    rw [Kernel.recordExit, Kernel.record_shadow, Kernel.setShadow_shadow_of_ne _ _ hq]
  have noted : Others S l.ctx l.held w.kernel
      (w.kernel.setShadow p fun s => { s with phase := .exiting status }) :=
    .ownShadow hctx (.inl hrunning) rfl rfl rfl fun _ => nofun
  refine .of_others inv on (inv.data.recordExit hrunning hphase)
    (noted.trans (others_record nofun)) (fun _ => .inl rfl) (fun {q} hq => ?_)
    (fun {q} hq halive => ?_) fun _ => .inl rfl
  · by_cases heq : q = p
    · subst heq
      simp [Kernel.recordExit] at hq
    · rw [Kernel.phase, hne heq] at hq
      exact .inl ⟨hq, rfl, rfl⟩
  · have heq : q ≠ p := fun heq => hq h (heq ▸ hcur)
    exact (inv.fresh hq halive).congr rfl (hne heq)

/-! ## The children -/

/-- `pp->parent = initproc`. -/
def Kernel.handOver (q : Slot) (k : Kernel) : Kernel :=
  k.setProc q fun s => { s with parent := k.initproc }

section HandOver

@[simp] theorem handOver_state (q : Slot) (k : Kernel) : (k.handOver q).state = k.state := by
  simp [Kernel.handOver, Function.update_eq_self]

@[simp] theorem handOver_chan (q : Slot) (k : Kernel) : (k.handOver q).chan = k.chan := by
  simp [Kernel.handOver, Function.update_eq_self]

@[simp] theorem handOver_pid (q : Slot) (k : Kernel) : (k.handOver q).pid = k.pid := by
  simp [Kernel.handOver, Function.update_eq_self]

@[simp] theorem handOver_xstate (q : Slot) (k : Kernel) : (k.handOver q).xstate = k.xstate := by
  simp [Kernel.handOver, Function.update_eq_self]

@[simp] theorem handOver_context (q : Slot) (k : Kernel) : (k.handOver q).context = k.context := by
  simp [Kernel.handOver, Function.update_eq_self]

@[simp] theorem handOver_parent (q : Slot) (k : Kernel) :
    (k.handOver q).parent = Function.update k.parent q k.initproc :=
  Kernel.setProc_parent ..

end HandOver

theorem Data.handOver (data : Data img k) (leaving : Leaving p status k)
    (hparent : k.parent q = some p) : Data img (k.handOver q) := by
  obtain ⟨i, hi, halive⟩ := data.tree.init (data.booted leaving.alive.live)
  refine ⟨?_, ?_, fun r => ?_, ?_, data.start, fun {r s} hr => ?_, data.root⟩
  · rw [handOver_state, handOver_parent]
    exact data.tree.setParent fun j hj => by
      rw [hi] at hj
      cases hj
      exact halive
  · rw [handOver_state, handOver_pid]
    exact data.pids
  · by_cases hr : r = q
    · subst hr
      have hslot := data.slot r
      simp only [Kernel.handOver, Kernel.setProc_proc_self, Kernel.setProc_shadow]
      refine ⟨hslot.killed, fun hu => ?_, hslot.sleeping, hslot.runnable, hslot.entry,
        hslot.used⟩
      have hnone := hslot.unused hu
      rw [Kernel.proc_parent, hparent] at hnone
      cases hnone
    · rw [Kernel.handOver, Kernel.setProc_proc_of_ne _ _ hr]
      exact data.slot r
  · rw [handOver_state, handOver_xstate, handOver_parent]
    exact data.hist.adopt hi leaving.alive.live leaving.phase hparent
  · rw [handOver_parent] at hr
    by_cases hrq : r = q
    · subst hrq
      rw [Function.update_self, hi] at hr
      cases hr
      -- `initproc` is the oldest process
      have hroot := data.root (data.booted leaving.alive.live) i hi
      have hpos := data.pids.pos leaving.alive.live
      have holder := data.order hparent
      change k.serial i < k.serial r
      omega
    · rw [Function.update_of_ne hrq] at hr
      exact data.order hr

theorem others_handOver {c : Ctx H} {held : Lock → Prop} (hctx : c = .proc p)
    (hwait : held .wait) (hparent : k.parent q = some p) :
    Others S c held k (k.handOver q) := by
  refine ⟨fun c' hne => ?_, fun r _ hdead halive => ?_, fun r _ => ?_,
    fun hnot => absurd hwait hnot, fun _ => ⟨rfl, rfl⟩,
    ⟨List.suffix_rfl, fun r hlive hc => ⟨by rwa [handOver_state], hc, rfl, by rw [handOver_pid]⟩⟩⟩
  · cases c' with
    | cpu h => exact fun _ => ⟨rfl, rfl, fun _ => rfl⟩
    | proc r =>
      intro halive
      refine ⟨by rwa [handOver_state], ⟨k.phase r, rfl, .inl rfl⟩,
        fun harmed hrunning => ⟨harmed, by rwa [handOver_state]⟩, by rw [handOver_pid],
        fun _ => by rw [handOver_context], fun t ht => ⟨?_, rfl, by rw [handOver_pid]⟩, rfl⟩
      have htq : t ≠ q := by
        rintro rfl
        rw [hparent] at ht
        cases ht
        exact hne hctx.symm
      rwa [handOver_parent, Function.update_of_ne htq]
  · rw [handOver_state] at halive
    exact absurd halive hdead
  · by_cases hr : r = q
    · subst hr
      refine ⟨⟨k.initproc, Kernel.setProc_proc_self ..⟩, fun hnone => ?_, rfl, rfl, rfl,
        fun _ => rfl, id⟩
      rw [hparent] at hnone
      cases hnone
    · have hproc : (k.handOver q).proc r = k.proc r := Kernel.setProc_proc_of_ne _ _ hr
      refine ⟨⟨k.parent r, hproc⟩, fun hnone => ?_, rfl, rfl, rfl, fun _ => rfl, id⟩
      rwa [Kernel.parent, hproc]

theorem change_handOver (inv : Inv S.img w) (on : On l h w) (hctx : l.ctx = .proc p)
    (hwait : l.held .wait) (leaving : Leaving p status w.kernel)
    (hparent : w.kernel.parent q = some p) : Change S l w (w.kernel.handOver q) :=
  .of_others inv on (inv.data.handOver leaving hparent) (others_handOver hctx hwait hparent)
    (fun _ => .inl (by rw [handOver_state]))
    (fun harmed => .inl ⟨harmed, by rw [handOver_state], by rw [handOver_chan]⟩)
    (fun hr halive => (inv.fresh hr (by rwa [handOver_state] at halive)).congr
      (by rw [handOver_context]) rfl)
    fun _ => .inl (by rw [handOver_state])

/-- In the loop over the children, before the slots `rest`. -/
structure Handing (p : Slot) (status : CInt) (rest : List Slot) (k : Kernel) : Prop
    extends Leaving p status k where
  calm : Calm k.state k.parent k.phase
  done : ∀ r, r ∉ rest → k.parent r ≠ some p

/-- The child `q` has been handed over; if it is a zombie, then `initproc` may still
be asleep. -/
structure Handed (p : Slot) (status : CInt) (rest : List Slot) (q : Slot) (k : Kernel) :
    Prop extends Leaving p status k where
  adopted : ∃ i, k.initproc = some i
  waiting : ∀ r, k.phase r = .armed → (∃ t, k.parent t = some r) ∧
    ∀ t, k.parent t = some r → k.state t = .zombie → t = q ∧ k.initproc = some r
  done : ∀ r, r ∉ rest → k.parent r ≠ some p

theorem Handed.handing {rest : List Slot} (handed : Handed p status rest q k)
    (hawake : k.state q = .zombie → ∀ i, k.initproc = some i → k.phase i ≠ .armed) :
    Handing p status rest k := by
  refine ⟨handed.toLeaving, fun r harmed => ⟨(handed.waiting r harmed).1, fun t ht hz => ?_⟩,
    handed.done⟩
  obtain ⟨rfl, hinit⟩ := (handed.waiting r harmed).2 t ht hz
  exact hawake hz r hinit harmed

theorem stable_handing {rest : List Slot} (hctx : l.ctx = .proc p) (hwait : l.held .wait) :
    Stable S l (Handing p status rest) := by
  intro k k' frame handing
  have kept := frame.wait hwait
  refine ⟨stable_leaving hctx _ _ frame handing.toLeaving, kept.calm handing.calm,
    fun r hr => ?_⟩
  rw [kept.parent]
  exact handing.done r hr

theorem stable_handed {rest : List Slot} (hctx : l.ctx = .proc p) (hwait : l.held .wait) :
    Stable S l (Handed p status rest q) := by
  intro k k' frame handed
  have kept := frame.wait hwait
  have hown := frame.own
  rw [hctx] at hown
  have hinit := (hown handed.alive).initproc
  refine ⟨stable_leaving hctx _ _ frame handed.toLeaving, ?_, fun r harmed => ?_,
    fun r hr => ?_⟩
  · rw [hinit]
    exact handed.adopted
  · rw [kept.parent, hinit]
    obtain ⟨hchild, hall⟩ := handed.waiting r (kept.armed r harmed)
    exact ⟨hchild, fun t ht hz => hall t ht ((kept.zombie t).mp hz)⟩
  · rw [kept.parent]
    exact handed.done r hr

theorem Handing.handOver {rest : List Slot} (handing : Handing p status (q :: rest) k)
    (data : Data img k) (hparent : k.parent q = some p) :
    Handed p status rest q (k.handOver q) := by
  obtain ⟨i, hi, -⟩ := data.tree.init (data.booted handing.alive.live)
  have hself : (k.handOver q).parent q = some i := by rw [handOver_parent, Function.update_self, hi]
  have hother {t : Slot} (ht : t ≠ q) : (k.handOver q).parent t = k.parent t := by
    rw [handOver_parent, Function.update_of_ne ht]
  refine ⟨⟨by rw [handOver_state]; exact handing.alive, handing.phase, handing.window,
    handing.init⟩, ⟨i, hi⟩, fun r harmed => ⟨?_, fun t ht hz => ?_⟩, fun r hr => ?_⟩
  · obtain ⟨⟨t, ht⟩, -⟩ := handing.calm r harmed
    have htq : t ≠ q := by
      rintro rfl
      rw [hparent] at ht
      cases ht
      exact handing.not_armed harmed
    exact ⟨t, by rwa [hother htq]⟩
  · by_cases htq : t = q
    · subst htq
      rw [hself] at ht
      cases ht
      exact ⟨rfl, hi⟩
    · rw [hother htq] at ht
      rw [handOver_state] at hz
      exact absurd hz ((handing.calm r harmed).2 t ht)
  · by_cases hrq : r = q
    · subst hrq
      rw [hself]
      exact fun heq => handing.init (hi.trans heq)
    · rw [hother hrq]
      exact handing.done r (by simp [hrq, hr])

theorem stable_parent {parent : Option Slot} (hwait : l.held .wait) :
    Stable S l fun k => k.parent q = parent :=
  fun _ _ frame heq => (congrFun (frame.wait hwait).parent q).trans heq

theorem stable_zombie {s : ProcState} (hwait : l.held .wait) :
    Stable S l fun k => k.state q = .zombie ↔ s = .zombie :=
  fun _ _ frame hs => ((frame.wait hwait).zombie q).trans hs

section Loop

variable [DecidableEq H]

theorem Triple.reparent :
    Triple S (.ofProc p [.wait] sie) (Handing p status slots)
      (Process.reparent (some p) : Code H Unit) (fun _ => .ofProc p [.wait] sie)
      fun _ => Handing p status [] := by
  have hwait : Local.held (.ofProc p [.wait] sie : Local H) .wait :=
    .inl (by simp [Local.ofProc])
  refine Triple.forEach (F := Handing p status) fun q rest => ?_
  have hing : Stable S (.ofProc p [.wait] sie) (Handing p status (q :: rest)) :=
    stable_handing rfl hwait
  have hed : Stable S (.ofProc p [.wait] sie) (Handed p status rest q) :=
    stable_handed rfl hwait
  refine Triple.bind (.readProc (K := fun parent k =>
    Handing p status (q :: rest) k ∧ k.parent q = parent) hing
      fun _ _ _ _ hf => ⟨hf, rfl⟩) fun parent => .ite (fun heq => ?_) fun hne => ?_
  · subst heq
    refine Triple.bind (G := fun _ => Handed p status rest q)
      (.write (hing.and (stable_parent hwait)) fun h w inv on hf => ?_) fun _ => ?_
    · exact ⟨change_handOver inv on rfl hwait hf.1.toLeaving hf.2, hf.1.handOver inv.data hf.2⟩
    have hzombie : ∀ s : ProcState, Stable S (.ofProc p [.wait] sie) fun k =>
        Handed p status rest q k ∧ (k.state q = .zombie ↔ s = .zombie) :=
      fun _ => hed.and (stable_zombie hwait)
    refine Triple.bind (.readProc (K := fun (s : ProcState) k =>
      Handed p status rest q k ∧ (k.state q = .zombie ↔ s = .zombie)) hed
        fun _ _ _ _ hf => ⟨hf, .rfl⟩) fun s => .ite (fun _ => ?_) fun hs => ?_
    · have hinit : ∀ r, Stable S (.ofProc p [.wait] sie) fun k =>
          Handed p status rest q k ∧ k.initproc = r := by
        rintro r k k' frame ⟨handed, hr⟩
        have kept : KeptData S False p k k' := frame.own handed.alive
        exact ⟨hed _ _ frame handed, kept.initproc.trans hr⟩
      refine Triple.bind (.read (K := fun r k => Handed p status rest q k ∧ k.initproc = r)
        (hzombie s) fun _ _ _ _ hf => ⟨hf.1, rfl⟩) fun r => .ite (fun _ => ?_) fun hnone => ?_
      · refine (Triple.wakeup (hinit r) rfl rfl rfl (by simp [Local.ofProc])).mono
          (fun _ => id) fun _ k hk => hk.1.1.handing fun _ i hi => ?_
        obtain ⟨⟨handed, hr⟩, hwoken⟩ := hk
        refine hwoken i (by simp [Local.ofProc]) ?_ fun hctx => ?_
        · rw [← hr, hi]
          rfl
        · cases hctx
          exact handed.init hi
      · refine .assume (P := False) (fun k hk => ?_) False.elim
        obtain ⟨i, hi⟩ := hk.1.adopted
        rw [← hk.2, hi] at hnone
        exact hnone rfl
    · exact .pure (fun k hk => hk.1.handing fun hz => absurd (hk.2.mp hz) hs) rfl
  · refine .pure (fun k hk => ⟨hk.1.toLeaving, hk.1.calm, fun r hr => ?_⟩) rfl
    by_cases hrq : r = q
    · rw [hrq, hk.2]
      exact hne
    · exact hk.1.done r (by simp [hrq, hr])

end Loop

/-! ## The zombie -/

/-- The assignments to `p->xstate` and `p->state`. -/
def Kernel.die (p : Slot) (status : CInt) (k : Kernel) : Kernel :=
  k.setProc p fun s => { s with xstate := status, state := .zombie }

theorem die_state (p : Slot) (status : CInt) (k : Kernel) :
    (k.die p status).state = Function.update k.state p .zombie := Kernel.setProc_state ..

theorem die_parent (p : Slot) (status : CInt) (k : Kernel) :
    (k.die p status).parent = k.parent := by
  simp [Kernel.die, Function.update_eq_self]

theorem die_pid (p : Slot) (status : CInt) (k : Kernel) : (k.die p status).pid = k.pid := by
  simp [Kernel.die, Function.update_eq_self]

theorem Data.die (data : Data img k) (leaving : Leaving p status k)
    (hchildren : ∀ q, k.parent q ≠ some p) : Data img (k.die p status) := by
  refine ⟨?_, ?_, fun r => ?_, ?_, data.start, ?_, data.root⟩
  · rw [die_state, die_parent]
    exact data.tree.die leaving.alive.live hchildren leaving.init
  · rw [die_state, die_pid]
    refine data.pids.mono fun r hr => ⟨?_, rfl⟩
    by_cases hrp : r = p
    · subst hrp
      exact leaving.alive.live
    · rwa [Function.update_of_ne hrp] at hr
  · by_cases hr : r = p
    · subst hr
      rw [Kernel.die, Kernel.setProc_proc_self]
      exact ⟨(data.slot r).killed, nofun, nofun, nofun, False.elim, nofun⟩
    · rw [Kernel.die, Kernel.setProc_proc_of_ne _ _ hr]
      exact data.slot r
  · rw [die_state, die_parent, Kernel.die, Kernel.setProc_xstate]
    exact data.hist.die leaving.alive leaving.phase
  · rw [die_parent]
    exact data.order

theorem change_die (inv : Inv S.img w) (on : On l h w) (hctx : l.ctx = .proc p)
    (hheld : l.held (.proc p)) (hwait : l.held .wait) (leaving : Leaving p status w.kernel)
    (hchildren : ∀ q, w.kernel.parent q ≠ some p) (hrunning : w.kernel.state p = .running) :
    Change S l w (w.kernel.die p status) := by
  have sw : SlotWrite p w.kernel (w.kernel.die p status) := .setProc _
  have owed : SlotOwed S l.ctx l.held p w.kernel (w.kernel.die p status) :=
    .setProc (fun hne => absurd hctx hne) rfl (.inl rfl) (fun _ => trivial)
      fun hnot => absurd hwait hnot
  refine sw.change inv on hheld (inv.data.die leaving hchildren)
    (sw.others owed hheld (.inr (.same rfl rfl rfl)) fun _ => ⟨rfl, rfl⟩) (.inl hctx)
    (fun harmed => absurd harmed leaving.not_armed) (fun hne => absurd hctx hne)
    (.inr ⟨?_, ?_⟩)
  · rw [die_state, Function.update_self]
    nofun
  · rw [die_state, Function.update_self, hrunning]
    exact .leave _ hctx (.inr (.inr rfl))

/-- Ready to become a zombie: no child is left and the parent is awake. -/
structure Parting (p : Slot) (status : CInt) (k : Kernel) : Prop
    extends Handing p status [] k where
  parent : ∀ r, k.parent p = some r → k.phase r ≠ .armed

theorem stable_parting (hctx : l.ctx = .proc p) (hwait : l.held .wait) :
    Stable S l (Parting p status) := by
  intro k k' frame parting
  have kept := frame.wait hwait
  refine ⟨stable_handing hctx hwait _ _ frame parting.toHanding, fun r hr harmed => ?_⟩
  rw [kept.parent] at hr
  exact parting.parent r hr (kept.armed r harmed)

theorem Parting.calm_die (parting : Parting p status k) :
    Calm (k.die p status).state (k.die p status).parent (k.die p status).phase := by
  intro r harmed
  rw [die_parent, die_state]
  obtain ⟨hchild, hall⟩ := parting.calm r harmed
  refine ⟨hchild, fun t ht => ?_⟩
  by_cases htp : t = p
  · subst htp
    exact absurd harmed (parting.parent r ht)
  · rw [Function.update_of_ne htp]
    exact hall t ht

/-- A zombie that has not left its stack yet. -/
structure Zombie (p : Slot) (k : Kernel) : Prop where
  state : k.state p = .zombie
  phase : k.phase p ≠ .armed
  window : (k.shadow p).window = false

theorem stable_zombieOwn (hheld : l.held (.proc p)) : Stable S l (Zombie p) := by
  intro k k' frame zombie
  have kept := frame.slot p hheld
  have hshadow := kept.still (by rw [zombie.state]; nofun)
  refine ⟨kept.state.trans zombie.state, ?_, ?_⟩
  · rw [Kernel.phase, hshadow]
    exact zombie.phase
  · rw [hshadow, zombie.window]

theorem Leaving.zombie (leaving : Leaving p status k) : Zombie p (k.die p status) :=
  ⟨by rw [die_state, Function.update_self], leaving.not_armed, leaving.window⟩

/-! ## exit_process -/

/-- A process about to call `exit_process`, which is not `initproc`. -/
structure MayExit (p : Slot) (k : Kernel) : Prop where
  alive : (k.state p).Alive
  phase : k.phase p = .out
  window : (k.shadow p).window = false
  init : k.initproc ≠ some p

theorem stable_mayExit (hctx : l.ctx = .proc p) : Stable S l (MayExit p) := by
  intro k k' frame may
  have hown := frame.own
  rw [hctx] at hown
  have kept := hown may.alive
  have hshadow := kept.same (by rw [may.phase]; nofun)
  refine ⟨kept.alive, ?_, ?_, ?_⟩
  · rw [Kernel.phase, hshadow]
    exact may.phase
  · rw [hshadow, may.window]
  · rw [kept.initproc]
    exact may.init

section Exit

variable [DecidableEq H]

theorem Triple.becomeZombie :
    Triple S (.ofProc p [.wait] sie) (Handing p status []) (do
      let parent ← Process.readProc p (·.parent)
      if parent.isSome then
        Process.wakeup (parent.map .proc)
      Process.acquire (.proc p)
      Process.writeProc p fun s => { s with xstate := status, state := .zombie }
      Process.release .wait : Code H Unit) (fun _ => .ofProc p [.proc p] sie)
      fun _ => Zombie p := by
  have hwait : Local.held (.ofProc p [.wait] sie : Local H) .wait :=
    .inl (by simp [Local.ofProc])
  have hing : Stable S (.ofProc p [.wait] sie) (Handing p status []) :=
    stable_handing rfl hwait
  have hparting : Stable S (.ofProc p [.wait] sie) (Parting p status) :=
    stable_parting rfl hwait
  refine Triple.bind (.readProc (K := fun parent k =>
    Handing p status [] k ∧ k.parent p = parent) hing fun _ _ _ _ hf => ⟨hf, rfl⟩)
    fun parent => ?_
  have hknown : Stable S (.ofProc p [.wait] sie) fun k =>
      Handing p status [] k ∧ k.parent p = parent := hing.and (stable_parent hwait)
  have last : Triple S (.ofProc p [.wait] sie) (Parting p status) (do
      Process.acquire (.proc p)
      Process.writeProc p fun s => { s with xstate := status, state := .zombie }
      Process.release .wait : Code H Unit) (fun _ => .ofProc p [.proc p] sie)
      fun _ => Zombie p := by
    have hboth : ∀ lk ∈ [Lock.proc p, .wait],
        Local.held (.ofProc p [.proc p, .wait] sie : Local H) lk := fun _ => .inl
    have hown : Local.held (.ofProc p [.proc p] sie : Local H) (.proc p) :=
      .inl (by simp [Local.ofProc])
    refine (Triple.acquire hparting rfl rfl (by simp [Local.ofProc])).bind fun _ => ?_
    refine Triple.bind (m := fun _ => .ofProc p [.proc p, .wait] sie)
      (G := fun _ k => Zombie p k ∧ Calm k.state k.parent k.phase)
      (.write (((hparting.cons _)).and (Acquired.stable (hboth _ (by simp))))
        fun h w inv on hf => ?_) fun _ => ?_
    · obtain ⟨parting, acquired⟩ := hf
      exact ⟨change_die inv on rfl (hboth _ (by simp)) (hboth _ (by simp))
        parting.toLeaving (fun r => parting.done r (by simp)) (acquired.running p rfl rfl),
        parting.zombie, parting.calm_die⟩
    · refine Triple.release (l := .ofProc p [.proc p, .wait] sie)
        ((stable_zombieOwn (hboth _ (by simp))).and fun k k' frame calm =>
          (frame.wait (hboth _ (by simp))).calm calm)
        (stable_zombieOwn (p := p) (by simp [Local.held, Local.ofProc]))
        (fun _ => And.left) rfl rfl (by simp [Local.ofProc]) rfl fun h w inv on hf => ?_
      refine on.releasable inv (fun _ => hf.2) (fun _ _ => (by simp)) fun r hr _ harmed => ?_
      cases hr
      exact absurd harmed hf.1.phase
  refine .ite (fun _ => ?_) fun hnone => ?_
  · refine ((Triple.wakeup hknown rfl rfl rfl (by simp [Local.ofProc])).mono (fun _ => id)
      fun _ k hk => ⟨hk.1.1, fun r hr => ?_⟩).bind fun _ => last
    obtain ⟨⟨handing, hparent⟩, hwoken⟩ := hk
    by_cases hrp : r = p
    · rw [hrp]
      exact handing.not_armed
    · refine hwoken r (by simp [Local.ofProc]) ?_ fun hctx => ?_
      · rw [← hparent, hr]
        rfl
      · cases hctx
        exact hrp rfl
  · refine last.pre fun k hk => ⟨hk.1, fun r hr => ?_⟩
    rw [← hk.2, hr] at hnone
    exact absurd rfl hnone

theorem Triple.exitZombie :
    Triple S (.ofProc p [] sie) (MayExit p) (Process.exitZombie (some p) status : Code H Unit)
      (fun _ => .ofProc p [.proc p] sie) fun _ => Zombie p := by
  refine Triple.bind (G := fun _ => Leaving p status)
    (.write (stable_mayExit rfl) fun h w inv on may => ?_) fun _ => ?_
  · have hrunning := (on.awake inv rfl (by simp [Local.held, Local.ofProc])
      (by simp [Local.held, Local.ofProc])).2
    refine ⟨change_recordExit inv on rfl hrunning may.phase, may.alive, ?_, ?_, may.init⟩
    · simp [Kernel.recordExit]
    · simpa [Kernel.recordExit] using may.window
  refine (Triple.acquire (stable_leaving rfl) rfl rfl (by simp [Local.ofProc])).bind fun _ => ?_
  refine Triple.bind (Triple.reparent.pre fun k hk => ⟨hk.1, hk.2.calm rfl, fun r hr => ?_⟩)
    fun _ => Triple.becomeZombie
  exact absurd (List.mem_finRange r) hr

theorem Triple.exitProcess {F : Kernel → Prop} (hF : Stable S (.ofProc p [] sie) F)
    (hexit : ∀ k, F k → (k.state p).Alive ∧ k.phase p = .out ∧
      (k.shadow p).window = false) :
    Triple S (.ofProc p [] sie) F (Process.exitProcess S.img status : Code H Empty)
      (fun never => never.elim) fun never _ => never.elim := by
  refine (Triple.myproc hF rfl).bind fun q => .known fun hq => ?_
  subst hq
  refine Triple.bind (.read (K := fun i k => F k ∧ k.initproc = i) hF
    fun _ _ _ _ hf => ⟨hf, rfl⟩) fun i => .ite (fun _ => ?_) fun hne => ?_
  · exact Triple.bind (m := fun _ => .ofProc p [] sie) (G := fun _ _ => False)
      (.panic (by decide)) fun _ => .unreachable fun _ _ _ _ => id
  have may : Triple S (.ofProc p [] sie) (fun k => F k ∧ k.initproc = i)
      (Process.exitZombie (some p) status : Code H Unit) (fun _ => .ofProc p [.proc p] sie)
      fun _ => Zombie p := by
    refine Triple.exitZombie.pre fun k hk => ?_
    obtain ⟨halive, hphase, hwindow⟩ := hexit k hk.1
    exact ⟨halive, hphase, hwindow, fun heq => hne (by rw [← hk.2, heq]; rfl)⟩
  have hown : Local.held (.ofProc p [.proc p] sie : Local H) (.proc p) :=
    .inl (by simp [Local.ofProc])
  have gone : Stable S (.ofProc p [] sie : Local H) fun _ => False := .const
  refine may.bind fun _ => (Triple.sched (stable_zombieOwn hown) (fun k zombie => ?_) gone
    fun k zombie halive => ?_).bind fun _ => .unreachable fun _ _ _ _ hf => hf.1
  · exact ⟨by rw [zombie.state]; simp, fun harmed => absurd harmed zombie.phase,
      fun _ => zombie.window⟩
  · rw [zombie.state] at halive
    exact halive

end Exit

end Xv6Kernel.Process
