import Xv6Kernel.Process.Spinlock

/-!
# The protocol of sleep and wakeup

What matters of the kernel for one channel, its condition and the lock of the
condition: who holds which lock, who runs where, and which processes sleep.  The steps
are those of the harts on this view; a process is armed from its decision to sleep until
it is woken.
-/

namespace Xv6Kernel.Process

open Xv6Kernel.Foundation Xv6Kernel.Mm

variable {H : Type}

@[ext]
structure View (H : Type) where
  owner : Lock → Option H
  cur : H → Ctx H
  /-- The current process of the hart, `cpu->proc`. -/
  on : H → Option Slot
  state : Slot → ProcState
  chan : Slot → Option Chan
  armed : Slot → Prop
  cond : Bool

/-- The channel and the lock of its condition, which is no lock of a process. -/
structure Topic where
  chan : Option Chan
  lk : Lock
  apart : ∀ p, lk ≠ .proc p

namespace View

variable (T : Topic)

def SleepsOn (v : View H) (p : Slot) : Prop := v.state p = .sleeping ∧ v.chan p = T.chan

/-- An armed process sleeps, or is still on its way and holds the lock of the condition. -/
def Settled (v : View H) (p : Slot) : Prop :=
  v.armed p → v.SleepsOn T p ∨ ∃ h, v.cur h = .proc p ∧ v.owner T.lk = some h

structure Inv (v : View H) : Prop where
  apart : ∀ {h h' p}, v.cur h = .proc p → v.cur h' = .proc p → h = h'
  home : ∀ {h g}, v.cur h = .cpu g → g = h
  armed : ∀ {p}, v.SleepsOn T p → v.armed p
  cond : v.owner T.lk = none → ∀ p, v.armed p → v.cond = false
  settled : ∀ {p}, v.owner (.proc p) = none → v.Settled T p
  running : ∀ {h p}, v.cur h = .proc p →
    v.state p = .running ∨ v.owner (.proc p) = some h

/-- What the others leave alone of a slot whose lock the hart holds. -/
structure SlotKept (q : Slot) (v v' : View H) : Prop where
  state : v'.state q = v.state q
  chan : v'.chan q = v.chan q
  armed : v.armed q → v'.armed q
  cur : ∀ h, v'.cur h = .proc q → v.cur h = .proc q
  settled : v.Settled T q → v'.Settled T q

/-- What the others leave alone of the process that the hart runs. -/
structure OwnKept (p : Slot) (v v' : View H) : Prop where
  unarmed : v'.armed p → v.armed p
  state : v.state p = .running → v'.state p = .running
  chan : v.state p = .running → v'.chan p = v.chan p
  armed : v.state p = .running → v.armed p → v'.armed p

structure Rely (h : H) (v v' : View H) : Prop where
  cur : v'.cur h = v.cur h
  on : v'.on h = v.on h
  owner : ∀ lk, v'.owner lk = some h ↔ v.owner lk = some h
  cond : v.owner T.lk = some h → v'.cond = v.cond
  armed : v.owner T.lk = some h → ∀ p, v'.armed p → v.armed p
  slot : ∀ q, v.owner (.proc q) = some h → v.SlotKept T q v'
  own : ∀ p, v.cur h = .proc p → v.OwnKept p v'

/-- What a suspended context finds as it was. -/
def Keep (c : Ctx H) (v v' : View H) : Prop :=
  match c with
  | .proc _ => True
  | .cpu g => v'.on g = v.on g

variable {T} {h : H} {v v' v'' : View H} {p q : Slot} {lk : Lock}

theorem SlotKept.refl : v.SlotKept T q v := ⟨rfl, rfl, id, fun _ => id, id⟩

theorem SlotKept.trans (first : v.SlotKept T q v') (second : v'.SlotKept T q v'') :
    v.SlotKept T q v'' :=
  ⟨second.state.trans first.state, second.chan.trans first.chan,
    second.armed ∘ first.armed, fun h => first.cur h ∘ second.cur h,
    second.settled ∘ first.settled⟩

theorem OwnKept.refl : v.OwnKept p v := ⟨id, id, fun _ => rfl, fun _ => id⟩

theorem OwnKept.trans (first : v.OwnKept p v') (second : v'.OwnKept p v'') :
    v.OwnKept p v'' :=
  ⟨first.unarmed ∘ second.unarmed, second.state ∘ first.state,
    fun hrun => (second.chan (first.state hrun)).trans (first.chan hrun),
    fun hrun => second.armed (first.state hrun) ∘ first.armed hrun⟩

theorem Rely.refl : v.Rely T h v :=
  ⟨rfl, rfl, fun _ => .rfl, fun _ => rfl, fun _ _ => id, fun _ _ => .refl, fun _ _ => .refl⟩

theorem Rely.trans (first : v.Rely T h v') (second : v'.Rely T h v'') : v.Rely T h v'' where
  cur := second.cur.trans first.cur
  on := second.on.trans first.on
  owner lk := (second.owner lk).trans (first.owner lk)
  cond hlk := (second.cond ((first.owner _).mpr hlk)).trans (first.cond hlk)
  armed hlk p := first.armed hlk p ∘ second.armed ((first.owner _).mpr hlk) p
  slot q hq := (first.slot q hq).trans (second.slot q ((first.owner _).mpr hq))
  own p hp := (first.own p hp).trans (second.own p (first.cur.trans hp))

theorem Keep.refl (c : Ctx H) : v.Keep c v := by
  cases c with
  | proc p => trivial
  | cpu g => exact rfl

theorem Keep.trans {c : Ctx H} (first : v.Keep c v') (second : v'.Keep c v'') :
    v.Keep c v'' := by
  cases c with
  | proc p => trivial
  | cpu g => exact Eq.trans second first

/-! ## Steps -/

/-- A step of the hart `h` that leaves all contexts where they are. -/
structure Moves (T : Topic) (h : H) (v v' : View H) : Prop where
  inv : v'.Inv T
  cur : v'.cur = v.cur
  rely : ∀ h', h' ≠ h → v.Rely T h' v'
  keep : ∀ c, (∀ h', v.cur h' ≠ c) → v.Keep c v'

theorem Moves.refl (inv : v.Inv T) : v.Moves T h v :=
  ⟨inv, rfl, fun _ _ => .refl, fun c _ => .refl c⟩

theorem Moves.trans (first : v.Moves T h v') (second : v'.Moves T h v'') :
    v.Moves T h v'' where
  inv := second.inv
  cur := second.cur.trans first.cur
  rely h' hne := (first.rely h' hne).trans (second.rely h' hne)
  keep c hc := (first.keep c hc).trans (second.keep c fun h' => by rw [first.cur]; exact hc h')

section Updates

variable [DecidableEq H]

def take (h : H) (lk : Lock) (v : View H) : View H :=
  { v with owner := Function.update v.owner lk (some h) }

def drop (lk : Lock) (v : View H) : View H :=
  { v with owner := Function.update v.owner lk none }

/-- New data of a slot. -/
def touch (q : Slot) (state : ProcState) (chan : Option Chan) (armed : Prop) (v : View H) :
    View H :=
  { v with
    state := Function.update v.state q state
    chan := Function.update v.chan q chan
    armed := Function.update v.armed q armed }

def arm (p : Slot) (v : View H) : View H :=
  { v with armed := Function.update v.armed p True }

def setCond (cond : Bool) (v : View H) : View H := { v with cond }

def setOn (h : H) (proc : Option Slot) (v : View H) : View H :=
  { v with on := Function.update v.on h proc }

def switch (h : H) (c : Ctx H) (v : View H) : View H :=
  { v with cur := Function.update v.cur h c }

omit [DecidableEq H]

theorem take_self : (v.take h lk).owner lk = some h := Function.update_self ..

theorem take_other {lk' : Lock} (hne : lk' ≠ lk) : (v.take h lk).owner lk' = v.owner lk' :=
  Function.update_of_ne hne ..

theorem drop_self : (v.drop lk).owner lk = none := Function.update_self ..

theorem drop_other {lk' : Lock} (hne : lk' ≠ lk) : (v.drop lk).owner lk' = v.owner lk' :=
  Function.update_of_ne hne ..

theorem take_some {lk' : Lock} {h' : H} (hfree : v.owner lk = none)
    (hlk' : v.owner lk' = some h') : (v.take h lk).owner lk' = some h' := by
  refine (take_other ?_).trans hlk'
  rintro rfl
  rw [hfree] at hlk'
  cases hlk'

theorem settled_take (hfree : v.owner lk = none) (settled : v.Settled T q) :
    (v.take h lk).Settled T q := by
  intro harmed
  exact (settled harmed).imp_right fun ⟨g, hg, howner⟩ => ⟨g, hg, take_some hfree howner⟩

theorem moves_take (inv : v.Inv T) (hfree : v.owner lk = none) :
    v.Moves T h (v.take h lk) := by
  have hnone : ∀ {lk'}, (v.take h lk).owner lk' = none → v.owner lk' = none := by
    intro lk' hlk'
    by_cases heq : lk' = lk
    · rw [heq, hfree]
    · rwa [take_other heq] at hlk'
  refine ⟨⟨inv.apart, inv.home, inv.armed, fun hlk => inv.cond (hnone hlk),
    fun hq => settled_take hfree (inv.settled (hnone hq)),
    fun hp => (inv.running hp).imp_right (take_some hfree)⟩, rfl, fun h' hne => ?_,
    fun c _ => .refl c⟩
  refine ⟨rfl, rfl, fun lk' => ⟨fun hlk' => ?_, take_some hfree⟩, fun _ => rfl, fun _ _ => id,
    fun q _ => ⟨rfl, rfl, id, fun _ => id, settled_take hfree⟩,
    fun _ _ => ⟨id, id, fun _ => rfl, fun _ => id⟩⟩
  by_cases heq : lk' = lk
  · rw [heq, take_self] at hlk'
    exact absurd (Option.some.inj hlk').symm hne
  · rwa [take_other heq] at hlk'

/-- The lock of the condition is given up with nobody armed for nothing, and by an armed
process only under its own lock; a slot is given up settled. -/
structure Gives (T : Topic) (h : H) (lk : Lock) (v : View H) : Prop where
  held : v.owner lk = some h
  cond : lk = T.lk → ∀ p, v.armed p → v.cond = false
  own : lk = T.lk → ∀ p, v.cur h = .proc p → v.armed p → v.owner (.proc p) = some h
  settled : ∀ p, lk = .proc p → v.Settled T p
  running : ∀ p, lk = .proc p → ∀ h', v.cur h' = .proc p → v.state p = .running

theorem moves_drop (inv : v.Inv T) (gives : Gives T h lk v) :
    v.Moves T h (v.drop lk) := by
  -- The lock of a slot that this hart does not own keeps its meaning.
  have hsettled : ∀ {q}, v.owner (.proc q) ≠ some h ∨ lk ≠ T.lk → v.Settled T q →
      (v.drop lk).Settled T q := by
    intro q hq settled harmed
    refine (settled harmed).imp_right fun ⟨g, hg, howner⟩ => ⟨g, hg, ?_⟩
    refine (drop_other ?_).trans howner
    intro heq
    rw [heq] at howner
    obtain rfl := Option.some.inj (gives.held.symm.trans howner)
    exact hq.elim (fun h => h (gives.own heq.symm q hg harmed)) fun h => h heq.symm
  refine ⟨⟨inv.apart, inv.home, inv.armed, fun hlk p harmed => ?_, fun {q} hq => ?_,
    fun {h' p} hp => ?_⟩, rfl, fun h' hne => ?_, fun c _ => .refl c⟩
  · by_cases heq : lk = T.lk
    · exact gives.cond heq p harmed
    · rw [drop_other (Ne.symm heq)] at hlk
      exact inv.cond hlk p harmed
  · by_cases heq : Lock.proc q = lk
    · exact hsettled (.inr fun h => T.apart q (h.symm.trans heq.symm)) (gives.settled q heq.symm)
    · rw [drop_other heq] at hq
      refine hsettled (.inl ?_) (inv.settled hq)
      rw [hq]
      nofun
  · by_cases heq : Lock.proc p = lk
    · exact .inl (gives.running p heq.symm h' hp)
    · rw [drop_other heq]
      exact inv.running hp
  · have howner : ∀ lk', (v.drop lk).owner lk' = some h' ↔ v.owner lk' = some h' := by
      intro lk'
      by_cases heq : lk' = lk
      · subst heq
        rw [drop_self, gives.held]
        exact ⟨nofun, fun h => absurd (Option.some.inj h).symm hne⟩
      · rw [drop_other heq]
    refine ⟨rfl, rfl, howner, fun _ => rfl, fun _ _ => id,
      fun q hq => ⟨rfl, rfl, id, fun _ => id, hsettled (.inl ?_)⟩,
      fun _ _ => ⟨id, id, fun _ => rfl, fun _ => id⟩⟩
    rw [hq]
    exact fun h => hne (Option.some.inj h)

section Touch

variable (v : View H) (state : ProcState) (chan : Option Chan) (armed : Prop)

theorem touch_self (q : Slot) : (v.touch q state chan armed).state q = state ∧
    (v.touch q state chan armed).chan q = chan ∧
      ((v.touch q state chan armed).armed q ↔ armed) :=
  ⟨Function.update_self .., Function.update_self ..,
    iff_of_eq (Function.update_self (f := v.armed) ..)⟩

theorem touch_other (hne : p ≠ q) : (v.touch q state chan armed).state p = v.state p ∧
    (v.touch q state chan armed).chan p = v.chan p ∧
      ((v.touch q state chan armed).armed p ↔ v.armed p) :=
  ⟨Function.update_of_ne hne .., Function.update_of_ne hne ..,
    iff_of_eq (Function.update_of_ne (f := v.armed) hne ..)⟩

variable {v state chan armed}

/-- A slot whose lock the hart holds, and that no other hart runs, changes. -/
theorem moves_touch (inv : v.Inv T) (hheld : v.owner (.proc q) = some h)
    (hfree : ∀ h', v.cur h' = .proc q → h' = h) (hdown : armed → v.armed q)
    (hsleeps : state = .sleeping → chan = T.chan → armed) :
    v.Moves T h (v.touch q state chan armed) := by
  have harmed : ∀ {p}, (v.touch q state chan armed).armed p → v.armed p := by
    intro p hp
    by_cases heq : p = q
    · subst heq
      exact hdown ((touch_self v state chan armed p).2.2.mp hp)
    · exact (touch_other v state chan armed heq).2.2.mp hp
  have hsettled : ∀ {p}, p ≠ q → v.Settled T p → (v.touch q state chan armed).Settled T p := by
    intro p hne settled hp
    obtain ⟨hstate, hchan, -⟩ := touch_other v state chan armed hne
    refine (settled (harmed hp)).imp_left fun hsleep => ⟨?_, ?_⟩
    · rw [hstate]
      exact hsleep.1
    · rw [hchan]
      exact hsleep.2
  refine ⟨⟨inv.apart, inv.home, fun {p} hp => ?_, fun hlk p hp => inv.cond hlk p (harmed hp),
    fun {p} hp => ?_, fun {h' p} hp => ?_⟩, rfl, fun h' hne => ?_, fun c _ => .refl c⟩
  · by_cases heq : p = q
    · subst heq
      obtain ⟨hstate, hchan, hiff⟩ := touch_self v state chan armed p
      exact hiff.mpr (hsleeps (hstate ▸ hp.1) (hchan ▸ hp.2))
    · obtain ⟨hstate, hchan, hiff⟩ := touch_other v state chan armed heq
      exact hiff.mpr (inv.armed ⟨hstate ▸ hp.1, hchan ▸ hp.2⟩)
  · refine hsettled ?_ (inv.settled hp)
    rintro rfl
    cases hheld.symm.trans hp
  · by_cases heq : p = q
    · subst heq
      rw [hfree h' hp]
      exact .inr hheld
    · refine (inv.running hp).imp_left fun hrun => ?_
      rwa [(touch_other v state chan armed heq).1]
  · have hslot : ∀ q', v.owner (.proc q') = some h' → q' ≠ q := by
      rintro q' hq' rfl
      exact hne (Option.some.inj (hq'.symm.trans hheld))
    have hown : ∀ p, v.cur h' = .proc p → p ≠ q := by
      rintro p hp rfl
      exact hne (hfree h' hp)
    refine ⟨rfl, rfl, fun _ => .rfl, fun _ => rfl, fun _ _ => harmed, fun q' hq' => ?_,
      fun p hp => ?_⟩
    · obtain ⟨hstate, hchan, hiff⟩ := touch_other v state chan armed (hslot q' hq')
      exact ⟨hstate, hchan, hiff.mpr, fun _ => id, hsettled (hslot q' hq')⟩
    · obtain ⟨hstate, hchan, hiff⟩ := touch_other v state chan armed (hown p hp)
      exact ⟨hiff.mp, fun hrun => hstate.trans hrun, fun _ => hchan, fun _ => hiff.mpr⟩

end Touch

theorem arm_self : (v.arm p).armed p := by
  have h : (v.arm p).armed p = True := Function.update_self ..
  rw [h]
  trivial

theorem arm_other (hne : q ≠ p) : (v.arm p).armed q ↔ v.armed q :=
  iff_of_eq (Function.update_of_ne (f := v.armed) hne ..)

/-- The process that the hart runs decides to sleep, under the lock of the condition. -/
theorem moves_arm (inv : v.Inv T) (hcur : v.cur h = .proc p) (hheld : v.owner T.lk = some h) :
    v.Moves T h (v.arm p) := by
  have hup : ∀ {q}, v.armed q → (v.arm p).armed q := by
    intro q hq
    by_cases heq : q = p
    · rw [heq]
      exact arm_self
    · exact (arm_other heq).mpr hq
  have hsettled : ∀ {q}, v.Settled T q → (v.arm p).Settled T q := by
    intro q settled hq
    by_cases heq : q = p
    · rw [heq]
      exact .inr ⟨h, hcur, hheld⟩
    · exact settled ((arm_other heq).mp hq)
  have hother : ∀ {h'}, v.owner T.lk = some h' → h' = h :=
    fun hlk => Option.some.inj (hlk.symm.trans hheld)
  refine ⟨⟨inv.apart, inv.home, fun hp => hup (inv.armed hp), fun hlk => ?_,
    fun hq => hsettled (inv.settled hq), inv.running⟩, rfl, fun h' hne => ?_, fun c _ => .refl c⟩
  · cases hheld.symm.trans hlk
  · refine ⟨rfl, rfl, fun _ => .rfl, fun _ => rfl, fun hlk => absurd (hother hlk) hne,
      fun q _ => ⟨rfl, rfl, hup, fun _ => id, hsettled⟩,
      fun q hq => ⟨(arm_other ?_).mp, id, fun _ => rfl, fun _ => hup⟩⟩
    rintro rfl
    exact hne (inv.apart hq hcur)

theorem moves_setCond {cond : Bool} (inv : v.Inv T) (hheld : v.owner T.lk = some h) :
    v.Moves T h (v.setCond cond) := by
  refine ⟨⟨inv.apart, inv.home, inv.armed, fun hlk => ?_, inv.settled, inv.running⟩, rfl,
    fun h' hne => ?_, fun c _ => .refl c⟩
  · cases hheld.symm.trans hlk
  · exact ⟨rfl, rfl, fun _ => .rfl,
      fun hlk => absurd (Option.some.inj (hlk.symm.trans hheld)) hne, fun _ _ => id,
      fun _ _ => ⟨rfl, rfl, id, fun _ => id, id⟩, fun _ _ => ⟨id, id, fun _ => rfl, fun _ => id⟩⟩

end Updates

section Switches

variable [DecidableEq H]

/-- The scheduler of the hart notes the process it runs. -/
theorem moves_setOn {proc : Option Slot} (inv : v.Inv T) (hcur : v.cur h = .cpu h) :
    v.Moves T h (v.setOn h proc) := by
  refine ⟨⟨inv.apart, inv.home, inv.armed, inv.cond, inv.settled, inv.running⟩, rfl,
    fun h' hne => ?_, fun c hc => ?_⟩
  · exact ⟨rfl, Function.update_of_ne hne .., fun _ => .rfl, fun _ => rfl, fun _ _ => id,
      fun _ _ => ⟨rfl, rfl, id, fun _ => id, id⟩, fun _ _ => ⟨id, id, fun _ => rfl, fun _ => id⟩⟩
  · cases c with
    | proc p => trivial
    | cpu g =>
      refine Function.update_of_ne ?_ ..
      rintro rfl
      exact hc g hcur

/-! ## Switches -/

/-- The hart has entered the process, whose lock the scheduler took. -/
structure Entered (p : Slot) (h : H) (v : View H) : Prop where
  cur : v.cur h = .proc p
  on : v.on h = some p
  held : v.owner (.proc p) = some h
  state : v.state p = .running
  unarmed : ¬ v.armed p

/-- The hart is back in its scheduler, from a process whose lock is still held. -/
structure Back (T : Topic) (p : Slot) (h : H) (v : View H) : Prop where
  cur : v.cur h = .cpu h
  on : v.on h = some p
  held : v.owner (.proc p) = some h
  settled : v.Settled T p
  gone : ∀ h', v.cur h' ≠ .proc p

/-- The scheduler is about to enter a process that it has set to running. -/
structure Entering (p : Slot) (h : H) (v : View H) : Prop where
  cur : v.cur h = .cpu h
  on : v.on h = some p
  held : v.owner (.proc p) = some h
  state : v.state p = .running
  unarmed : ¬ v.armed p
  gone : ∀ h', v.cur h' ≠ .proc p

/-- A process is about to leave the hart with its lock held. -/
structure Leaving (T : Topic) (p : Slot) (h : H) (v : View H) : Prop where
  cur : v.cur h = .proc p
  on : v.on h = some p
  held : v.owner (.proc p) = some h
  settled : v.armed p → v.SleepsOn T p

theorem switch_self {c : Ctx H} : (v.switch h c).cur h = c := Function.update_self ..

theorem switch_other {c : Ctx H} {h' : H} (hne : h' ≠ h) :
    (v.switch h c).cur h' = v.cur h' :=
  Function.update_of_ne hne ..

theorem keep_switch {c : Ctx H} (c' : Ctx H) : v.Keep c' (v.switch h c) := by
  cases c' with
  | proc p => trivial
  | cpu g => exact rfl

theorem settled_switch {c : Ctx H} (hc : ∀ q, v.cur h = .proc q → q ≠ p)
    (settled : v.Settled T p) : (v.switch h c).Settled T p := by
  intro harmed
  refine (settled harmed).imp_right fun ⟨g, hg, howner⟩ => ⟨g, ?_, howner⟩
  rw [switch_other]
  · exact hg
  · rintro rfl
    exact hc p hg rfl

theorem Leaving.inv (leaving : v.Leaving T p h) (inv : v.Inv T) :
    (v.switch h (.cpu h)).Inv T where
  apart {h₁ h₂ q} h₁q h₂q := by
    have hkept : ∀ {g}, (v.switch h (.cpu h)).cur g = .proc q → v.cur g = .proc q := by
      intro g hg
      by_cases heq : g = h
      · rw [heq, switch_self] at hg
        cases hg
      · rwa [switch_other heq] at hg
    exact inv.apart (hkept h₁q) (hkept h₂q)
  home {h' g} hg := by
    by_cases heq : h' = h
    · rw [heq, switch_self] at hg
      cases hg
      exact heq.symm
    · rw [switch_other heq] at hg
      exact inv.home hg
  armed := inv.armed
  cond := inv.cond
  settled {q} hq := by
    refine settled_switch (fun q' hq' => ?_) (inv.settled hq)
    rintro rfl
    obtain rfl : p = q' := by
      rw [leaving.cur] at hq'
      cases hq'
      rfl
    cases leaving.held.symm.trans hq
  running {h' q} hq := by
    by_cases heq : h' = h
    · rw [heq, switch_self] at hq
      cases hq
    · rw [switch_other heq] at hq
      exact inv.running hq

theorem Leaving.rely (leaving : v.Leaving T p h) {h' : H} (hne : h' ≠ h) :
    v.Rely T h' (v.switch h (.cpu h)) := by
  refine ⟨switch_other hne, rfl, fun _ => .rfl, fun _ => rfl, fun _ _ => id, fun q hq => ?_,
    fun _ _ => ⟨id, id, fun _ => rfl, fun _ => id⟩⟩
  refine ⟨rfl, rfl, id, fun g hg => ?_, settled_switch fun q' hq' => ?_⟩
  · by_cases heq : g = h
    · rw [heq, switch_self] at hg
      cases hg
    · rwa [switch_other heq] at hg
  · rintro rfl
    rw [leaving.cur] at hq'
    cases hq'
    exact hne (Option.some.inj (hq.symm.trans leaving.held))

theorem Leaving.back (leaving : v.Leaving T p h) (inv : v.Inv T) :
    (v.switch h (.cpu h)).Back T p h where
  cur := switch_self
  on := leaving.on
  held := leaving.held
  settled harmed := .inl (leaving.settled harmed)
  gone h' hcur := by
    by_cases heq : h' = h
    · rw [heq, switch_self] at hcur
      cases hcur
    · rw [switch_other heq] at hcur
      exact heq (inv.apart hcur leaving.cur)

theorem switch_kept {g : H} (hne : q ≠ p)
    (hg : (v.switch h (.proc p)).cur g = .proc q) : v.cur g = .proc q := by
  by_cases heq : g = h
  · rw [heq, switch_self] at hg
    cases hg
    exact absurd rfl hne
  · rwa [switch_other heq] at hg

theorem Entering.inv (entering : v.Entering p h) (inv : v.Inv T) :
    (v.switch h (.proc p)).Inv T where
  apart {h₁ h₂ q} h₁q h₂q := by
    have hself : ∀ {g}, (v.switch h (.proc p)).cur g = .proc p → g = h := by
      intro g hg
      by_contra heq
      rw [switch_other heq] at hg
      exact entering.gone g hg
    by_cases heq : q = p
    · subst heq
      exact (hself h₁q).trans (hself h₂q).symm
    · exact inv.apart (switch_kept heq h₁q) (switch_kept heq h₂q)
  home {h' g} hg := by
    by_cases heq : h' = h
    · rw [heq, switch_self] at hg
      cases hg
    · rw [switch_other heq] at hg
      exact inv.home hg
  armed := inv.armed
  cond := inv.cond
  settled {q} hq := by
    refine settled_switch (fun q' hq' => ?_) (inv.settled hq)
    rw [entering.cur] at hq'
    cases hq'
  running {h' q} hq := by
    by_cases heq : h' = h
    · rw [heq, switch_self] at hq
      cases hq
      exact .inl entering.state
    · rw [switch_other heq] at hq
      exact inv.running hq

theorem Entering.rely (entering : v.Entering p h) {h' : H} (hne : h' ≠ h) :
    v.Rely T h' (v.switch h (.proc p)) := by
  refine ⟨switch_other hne, rfl, fun _ => .rfl, fun _ => rfl, fun _ _ => id, fun q hq => ?_,
    fun _ _ => ⟨id, id, fun _ => rfl, fun _ => id⟩⟩
  refine ⟨rfl, rfl, id, fun g => switch_kept ?_, settled_switch fun q' hq' => ?_⟩
  · rintro rfl
    exact hne (Option.some.inj (hq.symm.trans entering.held))
  · rw [entering.cur] at hq'
    cases hq'

theorem Entering.entered (entering : v.Entering p h) :
    (v.switch h (.proc p)).Entered p h :=
  ⟨switch_self, entering.on, entering.held, entering.state, entering.unarmed⟩

end Switches

/-! ## What the others leave standing -/

theorem Entered.kept (entered : v.Entered p h) (rely : v.Rely T h v') : v'.Entered p h :=
  ⟨rely.cur.trans entered.cur, rely.on.trans entered.on, (rely.owner _).mpr entered.held,
    (rely.slot p entered.held).state.trans entered.state,
    fun harmed => entered.unarmed ((rely.own p entered.cur).unarmed harmed)⟩

theorem Back.kept (back : v.Back T p h) (rely : v.Rely T h v') : v'.Back T p h where
  cur := rely.cur.trans back.cur
  on := rely.on.trans back.on
  held := (rely.owner _).mpr back.held
  settled := (rely.slot p back.held).settled back.settled
  gone h' hcur := back.gone h' ((rely.slot p back.held).cur h' hcur)

theorem Entering.kept (entering : v.Entering p h) (rely : v.Rely T h v') :
    v'.Entering p h where
  cur := rely.cur.trans entering.cur
  on := rely.on.trans entering.on
  held := (rely.owner _).mpr entering.held
  state := (rely.slot p entering.held).state.trans entering.state
  unarmed harmed := by
    have kept := rely.slot p entering.held
    rcases kept.settled (fun h => absurd h entering.unarmed) harmed with hsleep | ⟨g, hg, -⟩
    · have hstate := (kept.state.trans entering.state).symm.trans hsleep.1
      cases hstate
    · exact entering.gone g (kept.cur g hg)
  gone h' hcur := entering.gone h' ((rely.slot p entering.held).cur h' hcur)

theorem Leaving.kept (leaving : v.Leaving T p h) (rely : v.Rely T h v') :
    v'.Leaving T p h where
  cur := rely.cur.trans leaving.cur
  on := rely.on.trans leaving.on
  held := (rely.owner _).mpr leaving.held
  settled harmed := by
    have kept := rely.slot p leaving.held
    have hsleep := leaving.settled ((rely.own p leaving.cur).unarmed harmed)
    exact ⟨kept.state.trans hsleep.1, kept.chan.trans hsleep.2⟩

/-- The process runs on the hart and has not decided to sleep. -/
structure Awake (p : Slot) (h : H) (v : View H) : Prop where
  cur : v.cur h = .proc p
  on : v.on h = some p
  state : v.state p = .running
  unarmed : ¬ v.armed p

theorem Awake.kept (awake : v.Awake p h) (rely : v.Rely T h v') : v'.Awake p h :=
  ⟨rely.cur.trans awake.cur, rely.on.trans awake.on, (rely.own p awake.cur).state awake.state,
    fun harmed => awake.unarmed ((rely.own p awake.cur).unarmed harmed)⟩

theorem Entered.gives (entered : v.Entered p h) : v.Gives T h (.proc p) where
  held := entered.held
  cond hlk := absurd hlk.symm (T.apart p)
  own hlk := absurd hlk.symm (T.apart p)
  settled q hq harmed := by
    cases hq
    exact absurd harmed entered.unarmed
  running q hq h' _ := by
    cases hq
    exact entered.state

/-- Holding the lock of the condition, nobody is armed for nothing. -/
structure Holds (T : Topic) (h : H) (v : View H) : Prop where
  held : v.owner T.lk = some h
  cond : ∀ p, v.armed p → v.cond = false

theorem Holds.kept (holds : v.Holds T h) (rely : v.Rely T h v') : v'.Holds T h :=
  ⟨(rely.owner _).mpr holds.held, fun p harmed =>
    (rely.cond holds.held).trans (holds.cond p (rely.armed holds.held p harmed))⟩

/-- The process has decided to sleep, and finds the condition false. -/
structure Deciding (T : Topic) (p : Slot) (h : H) (v : View H) : Prop where
  cur : v.cur h = .proc p
  on : v.on h = some p
  state : v.state p = .running
  armed : v.armed p
  held : v.owner T.lk = some h
  cond : v.cond = false

theorem Deciding.kept (deciding : v.Deciding T p h) (rely : v.Rely T h v') :
    v'.Deciding T p h :=
  ⟨rely.cur.trans deciding.cur, rely.on.trans deciding.on,
    (rely.own p deciding.cur).state deciding.state,
    (rely.own p deciding.cur).armed deciding.state deciding.armed,
    (rely.owner _).mpr deciding.held, (rely.cond deciding.held).trans deciding.cond⟩

end View

end Xv6Kernel.Process
