import Xv6Kernel.Foundation.Alone
import Xv6Kernel.Process.Machine

/-!
# Mutual exclusion

Harts that call `acquire`, `release` and `holding` on any locks in any order.  Every
instruction is one of `spinlock.c`, or marks where a call begins or returns; the marks
write history variables that no instruction reads.
-/

namespace Xv6Kernel.Process

open Xv6Kernel.Foundation

variable {H : Type} {α β : Type}

inductive Call where
  | acquire (lk : Lock)
  | release (lk : Lock)
  | holding (lk : Lock)

inductive CallInstr (H : Type) : Type → Type 1 where
  | code {β : Type} (i : Instr H β) : CallInstr H β
  /-- The program of the hart decides on its next call. -/
  | next : CallInstr H Call
  /-- `acquire(lk)` has returned. -/
  | acquired (lk : Lock) : CallInstr H Unit
  /-- `release(lk)` is called. -/
  | releasing (lk : Lock) : CallInstr H Unit
  /-- `release` has returned. -/
  | released : CallInstr H Unit
  /-- `holding(lk)` has returned `answer`. -/
  | told (lk : Lock) (answer : Bool) : CallInstr H Unit
  /-- The rest of the program. -/
  | more : CallInstr H Empty

structure Callers (H : Type) where
  world : World H
  /-- The locks whose `acquire` has returned and whose `release` has not been called. -/
  held : H → List Lock
  /-- The lock of the `release` under way, and whether it was held when called. -/
  leaving : H → Option (Lock × Bool)

section Machine

variable [DecidableEq H]

def callerBody : Program (CallInstr H) Empty := do
  match ← .perform .next with
  | .acquire lk => do
      (acquireBody lk).translate .code
      .perform (.acquired lk)
  | .release lk => do
      .perform (.releasing lk)
      (releaseBody lk).translate .code
      .perform .released
  | .holding lk => do
      let answer ← (holding lk).translate .code
      .perform (.told lk answer)
  .perform .more

namespace Callers

def run (a : Callers H) (world : World H) : Callers H := { a with world }

def acquired (a : Callers H) (h : H) (lk : Lock) : Callers H :=
  { a with held := Function.update a.held h (lk :: a.held h) }

def releasing (a : Callers H) (h : H) (lk : Lock) : Callers H :=
  { a with
    held := Function.update a.held h ((a.held h).filter (· ≠ lk))
    leaving := Function.update a.leaving h (some (lk, decide (lk ∈ a.held h))) }

def released (a : Callers H) (h : H) : Callers H :=
  { a with leaving := Function.update a.leaving h none }

end Callers

def callEffect {β : Type} : CallInstr H β → Effect (CallInstr H) H H (Callers H) β
  | .code (.act f) => .atomic fun h a => ((f h a.world).1, a.run (f h a.world).2)
  | .code (.spin lk) => .call ((spinBody lk).translate .code)
  | .code (.panic message) => .halt message
  | .code _ => .halt "not in spinlock.c"
  | .next => .choose
  | .acquired lk => .atomic fun h a => ((), a.acquired h lk)
  | .releasing lk => .atomic fun h a => ((), a.releasing h lk)
  | .released => .atomic fun h a => ((), a.released h)
  | .told _ _ => .call (pure ())
  | .more => .call callerBody

/-- Any number of harts that run such programs; a `panic` stops its hart. -/
def callers : Platform (CallInstr H) H H (Callers H) where
  effect := callEffect
  current _ h := h
  fresh _ _ := none
  trap _ _ _ := False
  handler := pure ()

/-- `initlock` has been called on every lock. -/
def callersStart (w : World H) : Config (CallInstr H) H H (Callers H) where
  world := ⟨{ w with lock := fun _ => ⟨none, none⟩ }, fun _ => [], fun _ => none⟩
  code _ := .perform .more
  saved _ := .perform .more

end Machine

namespace Callers

/-! ## What the harts keep -/

structure Inv (a : Callers H) : Prop where
  locked : ∀ {lk h}, (a.world.lock lk).cpu = some h → (a.world.lock lk).locked = some h
  held : ∀ {lk h}, lk ∈ a.held h → (a.world.lock lk).cpu = some h

structure Rely (h : H) (a a' : Callers H) : Prop where
  held : a'.held h = a.held h
  leaving : a'.leaving h = a.leaving h
  cpu : ∀ lk, (a'.world.lock lk).cpu = some h ↔ (a.world.lock lk).cpu = some h
  locked : ∀ lk, (a'.world.lock lk).locked = some h ↔ (a.world.lock lk).locked = some h

theorem Rely.refl (h : H) (a : Callers H) : Rely h a a :=
  ⟨rfl, rfl, fun _ => .rfl, fun _ => .rfl⟩

theorem Rely.trans {h : H} {a a' a'' : Callers H} (first : Rely h a a')
    (second : Rely h a' a'') : Rely h a a'' :=
  ⟨second.held.trans first.held, second.leaving.trans first.leaving,
    fun lk => (second.cpu lk).trans (first.cpu lk),
    fun lk => (second.locked lk).trans (first.locked lk)⟩

/-- A lock is cleared by the hart that set it, in a `release` of a lock it held. -/
def Clears (h : H) (a a' : Callers H) : Prop :=
  ∀ lk, (a.world.lock lk).locked ≠ none → (a'.world.lock lk).locked = none →
    (a.world.lock lk).locked = some h ∧ a.leaving h = some (lk, true)

/-- Where a hart is with the locks: it has taken `full` completely, and of those in
`half` it has set the word `locked` only. -/
structure At (h : H) (held : List Lock) (leaving : Option (Lock × Bool))
    (full half : Lock → Prop) (a : Callers H) : Prop where
  held : a.held h = held
  leaving : a.leaving h = leaving
  cpu : ∀ lk, (a.world.lock lk).cpu = some h ↔ full lk
  locked : ∀ lk, (a.world.lock lk).locked = some h ↔ full lk ∨ half lk

/-- The hart is outside `acquire` and `release`. -/
def Outside (h : H) (a : Callers H) : Prop :=
  At h (a.held h) none (· ∈ a.held h) (fun _ => False) a

variable {h : H} {hs : List Lock} {r : Option (Lock × Bool)} {full half : Lock → Prop}
  {a a' : Callers H} {lk : Lock}

theorem At.rely (at' : At h hs r full half a) (rely : Rely h a a') :
    At h hs r full half a' :=
  ⟨rely.held.trans at'.held, rely.leaving.trans at'.leaving,
    fun lk => (rely.cpu lk).trans (at'.cpu lk),
    fun lk => (rely.locked lk).trans (at'.locked lk)⟩

theorem Outside.rely (out : Outside h a) (rely : Rely h a a') : Outside h a' := by
  have at' := At.rely out rely
  rwa [← rely.held] at at'

end Callers

/-! ## The logic of the callers -/

namespace Callers

section Logic

variable [DecidableEq H]

def callersLogic : Logic (callers (H := H)) where
  Inv := Inv
  Rely := Rely
  Keep _ _ _ := True
  Resume _ _ _ := False
  Preempt _ _ _ _ := False
  Handoff _ _ _ _ := False
  pre i h a :=
    match i with
    | .code (.spin lk) => (a.world.lock lk).locked ≠ some h
    | .told lk answer => (answer = true ↔ lk ∈ a.held h) ∧ a.Outside h
    | .more => a.Outside h
    | _ => True
  post i h a _ h' a' :=
    match i with
    | .code (.spin lk) =>
        h' = h ∧ ∀ hs r full half, At h hs r full half a →
          At h hs r full (fun lk' => half lk' ∨ lk' = lk) a'
    | .told _ _ => h' = h ∧ a'.Outside h
    | _ => False
  MayHalt _ := True
  Allowed := Clears
  keep_trans _ _ := trivial

variable {h : H} {hs : List Lock} {r : Option (Lock × Bool)} {full half : Lock → Prop}
  {a a' : Callers H} {lk : Lock} {P : Callers H → Prop}

/-- Nothing but steps of other harts comes between two instructions. -/
theorem env_rely {h' : H} (env : (callersLogic (H := H)).Env h a h' a') :
    h' = h ∧ Rely h a a' := by
  induction env with
  | refl => exact ⟨rfl, .refl h a⟩
  | rely _ others _ ih =>
    obtain ⟨rfl, before⟩ := ih
    exact ⟨rfl, before.trans others⟩
  | preempt _ trap => exact trap.elim

/-- From `P`, the kernel's code leads to `Q` on the same hart. -/
def Spec (h : H) (P : Callers H → Prop) (c : Code H α) (Q : α → Callers H → Prop) : Prop :=
  ∀ a, Inv a → P a →
    callersLogic.wp (c.translate .code) (fun value h' a' => h' = h ∧ Q value a') h a

def Steady (h : H) (P : Callers H → Prop) : Prop :=
  ∀ {a a'}, P a → Rely h a a' → P a'

omit [DecidableEq H] in
theorem At.steady : Steady h (At h hs r full half) := At.rely

namespace Spec

variable {Q : α → Callers H → Prop} {R : β → Callers H → Prop} {c : Code H α}
  {rest : α → Code H β}

theorem done {value : α} (hP : ∀ a, P a → Q value a) : Spec h P (pure value) Q :=
  fun a _ hp => ⟨rfl, hP a hp⟩

theorem bind (hc : Spec h P c Q) (hrest : ∀ value, Spec h (Q value) (rest value) R) :
    Spec h P (c >>= rest) R := by
  intro a inv hp
  rw [Program.translate_bind, Logic.wp_bind]
  refine Logic.wp_mono inv (fun value h' a' inv' hq => ?_) (hc a inv hp)
  obtain ⟨rfl, hq⟩ := hq
  exact hrest value a' inv' hq

theorem mono {Q' : α → Callers H → Prop} (hQ : ∀ value a, Q value a → Q' value a)
    (hc : Spec h P c Q) : Spec h P c Q' :=
  fun a inv hp => Logic.wp_mono inv (fun value _ _ _ hq => ⟨hq.1, hQ value _ hq.2⟩) (hc a inv hp)

theorem known {p : Prop} (hc : p → Spec h P c Q) : Spec h (fun a => P a ∧ p) c Q :=
  fun a inv hp => hc hp.2 a inv hp.1

theorem ite {p : Prop} [Decidable p] {c' : Code H α} (hc : p → Spec h P c Q)
    (hc' : ¬ p → Spec h P c' Q) : Spec h P (if p then c else c') Q := by
  by_cases hp : p
  · rw [if_pos hp]
    exact hc hp
  · rw [if_neg hp]
    exact hc' hp

theorem halts {message : String} : Spec h P (panic message >>= rest) R :=
  fun _ _ _ _ _ _ _ => trivial

theorem step {f : H → World H → α × World H} (hP : Steady h P)
    (hf : ∀ a, Inv a → P a →
      callersLogic.Guarantee h a (a.run (f h a.world).2) ∧
        Q (f h a.world).1 (a.run (f h a.world).2)) : Spec h P (act f) Q := by
  intro a _ hp h' a' env inv'
  obtain ⟨rfl, rely⟩ := env_rely env
  obtain ⟨guarantee, hq⟩ := hf a' inv' (hP hp rely)
  exact ⟨guarantee, rfl, hq⟩

end Spec

/-- A step of one hart, by what it does to the words of one lock. -/
theorem callers_guarantee (inv : Inv a') (clears : Clears h a a')
    (hrely : ∀ h', h' ≠ h → Rely h' a a') : callersLogic.Guarantee h a a' :=
  ⟨inv, clears, rfl, hrely, fun _ _ => trivial⟩

theorem guarantee_idle {w : World H} (inv : Inv a) (hlock : w.lock = a.world.lock) :
    callersLogic.Guarantee h a (a.run w) := by
  refine callers_guarantee ⟨?_, ?_⟩ (fun lk hset hclear => ?_) fun h' _ => ⟨rfl, rfl, ?_, ?_⟩
  · intro lk h'
    simp only [run, hlock]
    exact inv.locked
  · intro lk h'
    simp only [run, hlock]
    exact inv.held
  · simp only [run, hlock] at hclear
    exact absurd hclear hset
  · simp [run, hlock]
  · simp [run, hlock]

omit [DecidableEq H] in
theorem At.idle {w : World H} (at' : At h hs r full half a) (hlock : w.lock = a.world.lock) :
    At h hs r full half (a.run w) :=
  ⟨at'.held, at'.leaving, by simpa [run, hlock] using at'.cpu,
    by simpa [run, hlock] using at'.locked⟩

theorem Spec.idle {f : H → World H → α × World H} (hlock : ∀ w, (f h w).2.lock = w.lock) :
    Spec h (At h hs r full half) (act f) fun _ => At h hs r full half :=
  .step At.steady fun _ inv at' => ⟨guarantee_idle inv (hlock _), at'.idle (hlock _)⟩

theorem Spec.look {g : World H → α} {p : α → Prop}
    (hp : ∀ a, Inv a → At h hs r full half a → p (g a.world)) :
    Spec h (At h hs r full half) (act fun _ w => (g w, w))
      fun value a => At h hs r full half a ∧ p value :=
  .step At.steady fun a inv at' =>
    ⟨guarantee_idle inv rfl, at'.idle rfl, hp a inv at'⟩

/-! ## The words of one lock -/

theorem guarantee_lock {f : SpinLock H → SpinLock H} (inv : Inv a)
    (hlocked : ∀ h', (f (a.world.lock lk)).cpu = some h' →
      (f (a.world.lock lk)).locked = some h')
    (hheld : ∀ h', lk ∈ a.held h' → (f (a.world.lock lk)).cpu = some h')
    (hothers : ∀ h', h' ≠ h →
      ((f (a.world.lock lk)).cpu = some h' ↔ (a.world.lock lk).cpu = some h') ∧
      ((f (a.world.lock lk)).locked = some h' ↔ (a.world.lock lk).locked = some h'))
    (hclears : (a.world.lock lk).locked ≠ none → (f (a.world.lock lk)).locked = none →
      (a.world.lock lk).locked = some h ∧ a.leaving h = some (lk, true)) :
    callersLogic.Guarantee h a (a.run (a.world.setLock lk f)) := by
  have hself : (a.world.setLock lk f).lock lk = f (a.world.lock lk) :=
    Function.update_self ..
  have hne {lk' : Lock} (hne : lk' ≠ lk) :
      (a.world.setLock lk f).lock lk' = a.world.lock lk' := Function.update_of_ne hne ..
  refine callers_guarantee ⟨fun {lk' h'} => ?_, fun {lk' h'} => ?_⟩ (fun lk' => ?_)
    fun h' hh => ⟨rfl, rfl, fun lk' => ?_, fun lk' => ?_⟩
  all_goals
    simp only [run]
    by_cases heq : lk' = lk
  · subst heq
    rw [hself]
    exact hlocked h'
  · rw [hne heq]
    exact inv.locked
  · subst heq
    rw [hself]
    exact hheld h'
  · rw [hne heq]
    exact inv.held
  · subst heq
    rw [hself]
    exact hclears
  · rw [hne heq]
    exact fun hset hclear => absurd hclear hset
  · subst heq
    rw [hself]
    exact (hothers h' hh).1
  · rw [hne heq]
  · subst heq
    rw [hself]
    exact (hothers h' hh).2
  · rw [hne heq]

omit [DecidableEq H] in
theorem At.setLock {f : SpinLock H → SpinLock H} {full' half' : Lock → Prop}
    (at' : At h hs r full half a)
    (hcpu : (f (a.world.lock lk)).cpu = some h ↔ full' lk)
    (hlocked : (f (a.world.lock lk)).locked = some h ↔ full' lk ∨ half' lk)
    (hother : ∀ lk', lk' ≠ lk → (full' lk' ↔ full lk') ∧ (half' lk' ↔ half lk')) :
    At h hs r full' half' (a.run (a.world.setLock lk f)) := by
  refine ⟨at'.held, at'.leaving, fun lk' => ?_, fun lk' => ?_⟩
  all_goals
    simp only [run, World.setLock]
    by_cases heq : lk' = lk
  · subst heq
    rwa [Function.update_self]
  · rw [Function.update_of_ne heq, at'.cpu, (hother lk' heq).1]
  · subst heq
    rwa [Function.update_self]
  · rw [Function.update_of_ne heq, at'.locked, (hother lk' heq).1, (hother lk' heq).2]

theorem Spec.writeLock {f : H → SpinLock H → SpinLock H} {Q : Callers H → Prop}
    (hf : ∀ a, Inv a → At h hs r full half a →
      callersLogic.Guarantee h a (a.run (a.world.setLock lk (f h))) ∧
        Q (a.run (a.world.setLock lk (f h)))) :
    Spec h (At h hs r full half) (act fun h w => ((), w.setLock lk (f h))) fun _ => Q :=
  .step At.steady hf

/-! ## spinlock.c -/

theorem Spec.pushOff :
    Spec h (At h hs r full half) pushOff fun _ => At h hs r full half := by
  refine (Spec.idle fun _ => rfl).bind fun _ => (Spec.idle fun _ => rfl).bind fun _ =>
    (Spec.idle fun _ => rfl).bind fun _ => .ite (fun _ => ?_) fun _ => ?_
  · exact (Spec.idle fun _ => rfl).bind fun _ => .idle fun _ => rfl
  · exact .idle fun _ => rfl

theorem Spec.popOff :
    Spec h (At h hs r full half) popOff fun _ => At h hs r full half := by
  refine (Spec.idle fun _ => rfl).bind fun _ => .ite (fun _ => .halts) fun _ => ?_
  refine (Spec.idle fun _ => rfl).bind fun _ => .ite (fun _ => .halts) fun _ => ?_
  refine (Spec.idle fun _ => rfl).bind fun _ => (Spec.idle fun _ => rfl).bind fun _ =>
    .ite (fun _ => ?_) fun _ => .done fun _ => id
  exact (Spec.idle fun _ => rfl).bind fun _ => .ite (fun _ => .idle fun _ => rfl)
    fun _ => .done fun _ => id

/-- `holding` reads two words with steps of other harts in between. -/
theorem Spec.holding :
    Spec h (At h hs r full half) (holding lk) fun answer a =>
      At h hs r full half a ∧ (answer = true ↔ full lk) := by
  refine (Spec.look (p := fun set => full lk → set.isSome) fun a _ at' hfull => ?_).bind
    fun set => .known fun hset => .ite (fun _ => ?_) fun hfree => ?_
  · simp [(at'.locked lk).mpr (.inl hfull)]
  · refine Spec.bind (Q := fun c a => At h hs r full half a ∧ c = h)
      (.step At.steady fun a inv at' => ⟨guarantee_idle inv rfl, at'.idle rfl, rfl⟩)
      fun c => .known fun hc => ?_
    refine (Spec.look (p := fun cpu => cpu = some h ↔ full lk) fun a _ at' => at'.cpu lk).bind
      fun cpu => .known fun hcpu => .done fun a at' => ⟨at', ?_⟩
    rw [hc, decide_eq_true_iff]
    exact hcpu
  · exact .done fun a at' => ⟨at', iff_of_false Bool.false_ne_true fun hfull => hfree (hset hfull)⟩

/-- The loop of `acquire` sets `locked` for a hart that has not set it before. -/
theorem Spec.spin {Q : Unit → Callers H → Prop} (hP : Steady h P)
    (hfree : ∀ a, P a → (a.world.lock lk).locked ≠ some h)
    (hQ : ∀ a a', P a → (∀ hs r full half, At h hs r full half a →
      At h hs r full (fun lk' => half lk' ∨ lk' = lk) a') → Q () a') :
    Spec h P (.perform (.spin lk)) Q := by
  intro a _ hp h' a' env _
  obtain ⟨rfl, rely⟩ := env_rely env
  refine ⟨hfree a' (hP hp rely), fun _ h'' a'' inv'' hpost => ?_⟩
  obtain ⟨rfl, hset⟩ := hpost
  exact ⟨rfl, hQ a' a'' (hP hp rely) hset⟩

/-- A free word is set for the hart, and nobody's `cpu` is behind it. -/
theorem Spec.testAndSet {a₀ : Callers H} :
    Spec h (Rely h a₀) (testAndSet lk) fun set a =>
      if set then Rely h a₀ a
      else ∀ hs r full half, At h hs r full half a₀ →
        At h hs r full (fun lk' => half lk' ∨ lk' = lk) a := by
  refine .step (fun first second => first.trans second) fun a inv rely => ?_
  cases hlocked : (a.world.lock lk).locked with
  | some h' => exact ⟨guarantee_idle inv rfl, rely⟩
  | none =>
    have hcpu : (a.world.lock lk).cpu = none := by
      refine Option.eq_none_iff_forall_ne_some.mpr fun h' hcpu => ?_
      rw [inv.locked hcpu] at hlocked
      cases hlocked
    dsimp only
    refine ⟨guarantee_lock inv (fun h' => ?_) (fun h' => inv.held) (fun h' hne => ?_)
      fun hset => absurd hlocked hset, fun hs r full half at₀ => ?_⟩
    · simp [hcpu]
    · simp [hcpu, hlocked, hne.symm]
    · have at' := at₀.rely rely
      have hfull : ¬ full lk := fun hfull => by
        rw [(at'.cpu lk).mpr hfull] at hcpu
        cases hcpu
      refine at'.setLock ?_ ?_ fun lk' hne => ⟨.rfl, by simp [hne]⟩
      · simp [hcpu, hfull]
      · simp

theorem spinBody_callers {a₀ : Callers H} (hfree : (a₀.world.lock lk).locked ≠ some h) :
    Spec h (Rely h a₀) (spinBody lk) fun _ a => ∀ hs r full half,
      At h hs r full half a₀ → At h hs r full (fun lk' => half lk' ∨ lk' = lk) a := by
  refine Spec.testAndSet.bind fun set => ?_
  cases set with
  | false => exact .done fun _ => id
  | true =>
    refine .spin (fun first second => first.trans second) (fun a rely => ?_)
      fun a a' rely hset hs r full half at₀ => hset hs r full half (at₀.rely rely)
    rwa [Ne, rely.locked]

theorem acquireBody_callers :
    Spec h (At h hs r (· ∈ hs) fun _ => False) (acquireBody lk)
      fun _ => At h hs r (· ∈ lk :: hs) fun _ => False := by
  refine Spec.pushOff.bind fun _ => Spec.holding.bind fun answer => .known fun hanswer => ?_
  refine .ite (fun _ => .halts) fun hnot => ?_
  have hfull : lk ∉ hs := fun hlk => hnot (hanswer.mpr hlk)
  have taken : Spec h (At h hs r (· ∈ hs) fun _ => False) (.perform (.spin lk))
      fun _ => At h hs r (· ∈ hs) (· = lk) := by
    refine .spin At.steady (fun a at' => ?_) fun a a' at' hset => ?_
    · rw [Ne, at'.locked]
      simpa using hfull
    · simpa using hset _ _ _ _ at'
  refine taken.bind fun _ => .writeLock fun a inv at' => ?_
  have hmine : (a.world.lock lk).locked = some h := (at'.locked lk).mpr (.inr rfl)
  -- the word keeps every other hart from being the one in `cpu`
  have hother {h' : H} (hne : h' ≠ h) : (a.world.lock lk).cpu ≠ some h' := fun hcpu =>
    hne (Option.some.inj ((inv.locked hcpu).symm.trans hmine))
  refine ⟨guarantee_lock inv (fun h' hcpu => ?_) (fun h' hheld => ?_) (fun h' hne => ?_)
    fun _ hclear => ?_, at'.setLock ?_ ?_ fun lk' hne => ?_⟩
  · exact hmine.trans hcpu
  · by_cases heq : h' = h
    · rw [heq]
    · exact absurd (inv.held hheld) (hother heq)
  · simp [hne.symm, hother hne]
  · rw [hmine] at hclear
    cases hclear
  · simp
  · simp [hmine]
  · simp [hne]

theorem releaseBody_callers :
    Spec h (At h (hs.filter (· ≠ lk)) (some (lk, decide (lk ∈ hs))) (· ∈ hs) fun _ => False)
      (releaseBody lk) fun _ => At h (hs.filter (· ≠ lk)) (some (lk, decide (lk ∈ hs)))
        (· ∈ hs.filter (· ≠ lk)) fun _ => False := by
  refine Spec.holding.bind fun answer => .known fun hanswer => .ite (fun _ => .halts) fun hnot => ?_
  have hlk : lk ∈ hs := hanswer.mp (by simpa using hnot)
  have clearCpu : Spec h
      (At h (hs.filter (· ≠ lk)) (some (lk, decide (lk ∈ hs))) (· ∈ hs) fun _ => False)
      (act fun _ w => ((), w.setLock lk fun l => { l with cpu := none }))
      fun _ => At h (hs.filter (· ≠ lk)) (some (lk, decide (lk ∈ hs)))
        (· ∈ hs.filter (· ≠ lk)) (· = lk) := by
    refine .writeLock fun a inv at' => ?_
    have hcpu : (a.world.lock lk).cpu = some h := (at'.cpu lk).mpr hlk
    have hmine : (a.world.lock lk).locked = some h := inv.locked hcpu
    refine ⟨guarantee_lock inv (fun _ hnone => nomatch hnone) (fun h' hheld => ?_) (fun h' hne => ?_)
      fun _ hclear => ?_, at'.setLock ?_ ?_ fun lk' hne => ?_⟩
    · obtain rfl : h = h' := Option.some.inj (hcpu.symm.trans (inv.held hheld))
      rw [at'.held] at hheld
      simp at hheld
    · simp [hcpu, hne.symm]
    · rw [hmine] at hclear
      cases hclear
    · simp
    · simp [hmine]
    · simp [hne]
  have clearLocked : Spec h
      (At h (hs.filter (· ≠ lk)) (some (lk, decide (lk ∈ hs)))
        (· ∈ hs.filter (· ≠ lk)) (· = lk))
      (act fun _ w => ((), w.setLock lk fun l => { l with locked := none }))
      fun _ => At h (hs.filter (· ≠ lk)) (some (lk, decide (lk ∈ hs)))
        (· ∈ hs.filter (· ≠ lk)) fun _ => False := by
    refine .writeLock fun a inv at' => ?_
    have hmine : (a.world.lock lk).locked = some h := (at'.locked lk).mpr (.inr rfl)
    have hcpu {h' : H} : (a.world.lock lk).cpu ≠ some h' := fun hcpu => by
      obtain rfl : h' = h := Option.some.inj ((inv.locked hcpu).symm.trans hmine)
      have hfull := (at'.cpu lk).mp hcpu
      simp at hfull
    refine ⟨guarantee_lock inv (fun h' hh => absurd hh hcpu) (fun h' => inv.held)
      (fun h' hne => ?_) fun _ _ => ⟨hmine, ?_⟩, at'.setLock ?_ ?_ fun lk' hne => ?_⟩
    · simp [hmine, hne.symm]
    · rw [at'.leaving, decide_eq_true hlk]
    · simp [hcpu]
    · simp
    · simp [hne]
  exact clearCpu.bind fun _ => clearLocked.bind fun _ => Spec.popOff

/-! ## The callers -/

theorem guarantee_history (inv : Inv a) (hworld : a'.world = a.world)
    (hheld : ∀ h', h' ≠ h → a'.held h' = a.held h')
    (hleaving : ∀ h', h' ≠ h → a'.leaving h' = a.leaving h')
    (hmine : ∀ lk ∈ a'.held h, (a.world.lock lk).cpu = some h) :
    callersLogic.Guarantee h a a' := by
  refine callers_guarantee ⟨?_, fun {lk h'} hlk => ?_⟩ (fun lk hset hclear => ?_)
    fun h' hne => ⟨hheld h' hne, hleaving h' hne, ?_, ?_⟩
  · rw [hworld]
    exact inv.locked
  · rw [hworld]
    by_cases heq : h' = h
    · subst heq
      exact hmine lk hlk
    · rw [hheld h' heq] at hlk
      exact inv.held hlk
  · rw [hworld] at hclear
    exact absurd hclear hset
  · simp [hworld]
  · simp [hworld]

theorem more_spec {Q : Empty → H → Callers H → Prop} (out : a.Outside h) :
    callersLogic.wp (.perform .more) Q h a := by
  intro h' a' env _
  obtain ⟨rfl, rely⟩ := env_rely env
  exact ⟨out.rely rely, fun never => never.elim⟩

theorem acquired_spec {Q : Empty → H → Callers H → Prop}
    (at' : At h hs none (· ∈ lk :: hs) (fun _ => False) a) :
    callersLogic.wp (.perform (.acquired lk) >>= fun _ => .perform .more) Q h a := by
  intro h' a' env inv
  obtain ⟨rfl, rely⟩ := env_rely env
  have at₁ := at'.rely rely
  have hself : (a'.acquired h' lk).held h' = lk :: hs := by
    rw [← at₁.held]
    exact Function.update_self ..
  refine ⟨guarantee_history inv rfl (fun _ hne => Function.update_of_ne hne ..)
    (fun _ _ => rfl) fun lk' hlk' => ?_, more_spec ?_⟩
  · rw [hself] at hlk'
    exact (at₁.cpu lk').mpr hlk'
  · rw [Outside, hself]
    exact ⟨hself, at₁.leaving, at₁.cpu, at₁.locked⟩

theorem released_spec {Q : Empty → H → Callers H → Prop}
    (at' : At h hs r (· ∈ hs) (fun _ => False) a) :
    callersLogic.wp (.perform .released >>= fun _ => .perform .more) Q h a := by
  intro h' a' env inv
  obtain ⟨rfl, rely⟩ := env_rely env
  have at₁ := at'.rely rely
  refine ⟨guarantee_history inv rfl (fun _ _ => rfl)
    (fun _ hne => Function.update_of_ne hne ..) fun lk' hlk' => inv.held hlk', more_spec ?_⟩
  rw [Outside, show (a'.released h').held h' = hs from at₁.held]
  exact ⟨at₁.held, Function.update_self .., at₁.cpu, at₁.locked⟩

theorem callerBody_spec (out : a.Outside h) :
    callersLogic.wp callerBody (fun value _ _ => value.elim) h a := by
  intro h' a' env inv'
  obtain ⟨rfl, rely⟩ := env_rely env
  have out' := out.rely rely
  intro call
  cases call with
  | acquire lk =>
    change callersLogic.wp ((acquireBody lk).translate .code >>= fun _ =>
      .perform (.acquired lk) >>= fun _ => .perform .more) _ h' a'
    refine (Logic.wp_bind ..).mpr (Logic.wp_mono inv' (fun _ h₂ a₂ inv₂ hq => ?_)
      (acquireBody_callers a' inv' out'))
    obtain ⟨rfl, at₂⟩ := hq
    exact acquired_spec at₂
  | release lk =>
    intro h₁ a₁ env₁ inv₁
    obtain ⟨rfl, rely₁⟩ := env_rely env₁
    have at₁ := At.rely (out'.rely rely₁) (.refl ..)
    have hself : (a₁.releasing h₁ lk).held h₁ = (a₁.held h₁).filter (· ≠ lk) :=
      Function.update_self ..
    refine ⟨guarantee_history inv₁ rfl (fun _ hne => Function.update_of_ne hne ..)
      (fun _ hne => Function.update_of_ne hne ..) fun lk' hlk' => ?_, ?_⟩
    · rw [hself] at hlk'
      exact inv₁.held (List.mem_of_mem_filter hlk')
    have inv₂ : Inv (a₁.releasing h₁ lk) := by
      refine ⟨inv₁.locked, fun {lk' h'} hlk' => ?_⟩
      by_cases heq : h' = h₁
      · subst heq
        rw [hself] at hlk'
        exact inv₁.held (List.mem_of_mem_filter hlk')
      · rw [show (a₁.releasing h₁ lk).held h' = a₁.held h' from
          Function.update_of_ne heq ..] at hlk'
        exact inv₁.held hlk'
    change callersLogic.wp ((releaseBody lk).translate .code >>= fun _ =>
      .perform .released >>= fun _ => .perform .more) _ h₁ (a₁.releasing h₁ lk)
    refine (Logic.wp_bind ..).mpr (Logic.wp_mono inv₂ (fun _ h₃ a₃ inv₃ hq => ?_)
      (releaseBody_callers (a₁.releasing h₁ lk) inv₂
        ⟨hself, Function.update_self .., at₁.cpu, at₁.locked⟩))
    obtain ⟨rfl, at₃⟩ := hq
    exact released_spec at₃
  | holding lk =>
    change callersLogic.wp ((Process.holding lk).translate .code >>= fun answer =>
      .perform (.told lk answer) >>= fun _ => .perform .more) _ h' a'
    refine (Logic.wp_bind ..).mpr (Logic.wp_mono inv' (fun answer h₂ a₂ inv₂ hq => ?_)
      (Spec.holding a' inv' out'))
    obtain ⟨rfl, at₂, hanswer⟩ := hq
    intro h₃ a₃ env₃ _
    obtain ⟨rfl, rely₃⟩ := env_rely env₃
    have at₃ := at₂.rely rely₃
    have out₃ : a₃.Outside h₃ := by
      rw [Outside, at₃.held]
      exact at₃
    refine ⟨⟨by rw [at₃.held]; exact hanswer, out₃⟩, fun _ h₄ a₄ _ hpost => ?_⟩
    obtain ⟨rfl, out₄⟩ := hpost
    exact more_spec out₄

theorem callers_verified : (callersLogic (H := H)).Verified where
  call {β i body h a} heffect inv hpre := by
    cases i with
    | code i =>
      cases i with
      | spin lk =>
        cases heffect
        refine Logic.wp_mono inv (fun _ h' a' _ hq => hq) (spinBody_callers hpre a inv (.refl ..))
      | _ => cases heffect
    | told lk answer =>
      cases heffect
      exact ⟨rfl, hpre.2⟩
    | more =>
      cases heffect
      exact Logic.wp_mono inv (fun value => value.elim) (callerBody_spec hpre)
    | _ => cases heffect
  handler _ htrap := htrap.elim
  fresh hfresh := nomatch hfresh

theorem callersStart_good (w : World H) : callersLogic.Good (callersStart w) where
  inv := ⟨nofun, nofun⟩
  running h := more_spec ⟨rfl, rfl, by simp [callersStart], by simp [callersStart]⟩
  suspended c hc := absurd rfl (hc c)

end Logic

end Callers

section Claim

variable [DecidableEq H]

/-- In every run of any number of harts, a lock is between the return of `acquire` and
the call of `release` on one hart at most, `holding` answers a hart outside of both
whether it is that hart, and only a `release` by the hart that held the lock clears it. -/
theorem spinlock_mutual_exclusion {w : World H} {m : Config (CallInstr H) H H (Callers H)}
    (hrun : Reachable callers (callersStart w) m) :
    (∀ h h' lk, lk ∈ m.world.held h → lk ∈ m.world.held h' → h = h') ∧
    (∀ h lk answer next, m.code h = .step (.told lk answer) next →
      (answer = true ↔ lk ∈ m.world.held h)) ∧
    ∀ m', Step callers m m' → ∃ h, (∀ h', h' ≠ h → m'.code h' = m.code h') ∧
      ∀ lk, (m.world.world.lock lk).locked ≠ none →
        (m'.world.world.lock lk).locked = none →
        (m.world.world.lock lk).locked = some h ∧ m.world.leaving h = some (lk, true) := by
  have good := (Callers.callersStart_good w).reachable Callers.callers_verified hrun
  refine ⟨fun h h' lk hheld hheld' => ?_, fun h lk answer next hcode => ?_, fun m' hstep => ?_⟩
  · exact Option.some.inj ((good.inv.held hheld).symm.trans (good.inv.held hheld'))
  · have hpre := good.called hcode rfl
    exact hpre.1
  · obtain ⟨h, hcode, hworld | hclears⟩ := good.allowed Callers.callers_verified hstep
    · refine ⟨h, hcode, fun lk hset hclear => ?_⟩
      rw [hworld] at hclear
      exact absurd hclear hset
    · exact ⟨h, hcode, hclears⟩

/-- The hart `true` of two takes `kmem.lock`. -/
theorem spinlock_mutual_exclusion_sample :
    ∃ m : Config (CallInstr Bool) Bool Bool (Callers Bool),
      Lock.kmem ∈ m.world.held true ∧ Lock.kmem ∉ m.world.held false := by
  let start : Config (CallInstr Bool) Bool Bool (Callers Bool) :=
    callersStart (bootWorld ⟨fun _ => 0, 0, 0⟩)
  obtain ⟨a, hrun, hheld⟩ : ∃ a, Alone callers true ((acquireBody .kmem).translate .code)
      start.world (.ok ((), a)) ∧ a.held true = [] := by
    apply Exists.intro
    apply And.intro
    · iterate 6 refine .atomic rfl ?_
      refine .call rfl (.atomic rfl (.done ..)) ?_
      exact .atomic rfl (.done ..)
    · rfl
  let rest : Unit → Program (CallInstr Bool) Empty := fun _ =>
    (.perform (.acquired .kmem) >>= fun _ => .perform .more) >>= .done
  let taking : Config (CallInstr Bool) Bool Bool (Callers Bool) := { start with
    code := Function.update start.code true
      ((acquireBody .kmem).translate .code >>= rest) }
  have called : Reachable callers start taking := by
    refine .tail (.single (.call true rfl rfl)) ?_
    have hbody : Function.update start.code true (callerBody >>= .done) true =
        callerBody >>= .done := by simp only [Function.update_self]
    have choose := Step.choose (P := callers (H := Bool)) (m := { start with
      code := Function.update start.code true (callerBody >>= .done) }) true
      (i := CallInstr.next) (Call.acquire .kmem) hbody rfl
    rw [Function.update_idem] at choose
    let body : Program (CallInstr Bool) Empty :=
      (acquireBody .kmem).translate .code >>= fun _ =>
        .perform (.acquired .kmem) >>= fun _ => .perform .more
    have hassoc : body >>= .done = (acquireBody .kmem).translate .code >>= rest :=
      Program.bind_assoc' ..
    change Step callers _
      { start with code := Function.update start.code true (body >>= .done) } at choose
    rwa [hassoc] at choose
  have hcode : taking.code true = (acquireBody .kmem).translate .code >>= rest := by
    simp only [taking, Function.update_self]
  have returned := hrun.reachable (m := taking) rfl hcode
  have hrest : Function.update taking.code true (rest ()) true = rest () := by
    simp only [Function.update_self]
  have marked := (called.trans returned).tail
    (.atomic true (i := CallInstr.acquired .kmem) hrest rfl)
  have hmine : Lock.kmem ∈ (a.acquired true .kmem).held true := by
    simp [Callers.acquired, hheld]
  have hsafe := (spinlock_mutual_exclusion marked).1 true false .kmem hmine
  exact ⟨_, hmine, fun hother => nomatch hsafe hother⟩

end Claim

end Xv6Kernel.Process
