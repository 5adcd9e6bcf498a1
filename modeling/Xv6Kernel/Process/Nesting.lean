import Xv6Kernel.Mm.AllocatorRuns
import Xv6Kernel.Process.Undisturbed

/-!
# Nested locks and interrupts

One hart that acquires and releases locks in any order, and takes interrupts whenever
`sstatus.SIE` is set, between any two instructions of `spinlock.c` too.  The handlers
acquire and release locks of their own.
-/

namespace Xv6Kernel.Process

open Xv6Kernel.Foundation

variable {α β : Type}

/-- What a program on the hart does next; `done` is for handlers. -/
inductive Nesting where
  | acquire (lk : Lock)
  | release (lk : Lock)
  | myproc
  | setSie (sie : Bool)
  | done

inductive NestInstr : Type → Type 1 where
  | code {β : Type} (i : Instr Unit β) : NestInstr β
  | decide : NestInstr Nesting
  /-- The rest of a program that holds `held`; `before` is the value of `SIE` just before
  the outermost `push_off`, or now. -/
  | client (held : List Lock) (before : Bool) : NestInstr Empty
  /-- The rest of a handler. -/
  | serve (held : List Lock) (before : Bool) : NestInstr Unit

/-- One action; what cannot be done with the locks held is passed over. -/
def nestingBody (held : List Lock) (before : Bool) :
    Nesting → Program NestInstr (List Lock × Bool)
  | .acquire lk =>
      if lk ∈ held then return (held, before)
      else do
        let sie ← intrGet.translate .code
        (acquireBody lk).translate .code
        return (lk :: held, if held = [] then sie else before)
  | .release lk =>
      if lk ∈ held then do
        (releaseBody lk).translate .code
        return (held.erase lk, before)
      else return (held, before)
  | .myproc => do
      let _ ← myprocBody.translate .code
      return (held, before)
  | .setSie _ | .done => return (held, before)

def nestClient (held : List Lock) (before : Bool) : Program NestInstr Empty := do
  match ← .perform .decide with
  | .setSie sie =>
      if held = [] then
        (if sie then intrOn else intrOff).translate .code
        .perform (.client held sie)
      else
        .perform (.client held before)
  | action =>
      let (held, before) ← nestingBody held before action
      .perform (.client held before)

def nestServe (held : List Lock) (before : Bool) : Program NestInstr Unit := do
  match ← .perform .decide with
  | .done =>
      if held = [] then return ()
      else .perform (.serve held before)
  | action =>
      let (held, before) ← nestingBody held before action
      .perform (.serve held before)

/-- `kernelvec` and `kerneltrap` around what the handler does. -/
def nestHandler : Program NestInstr Unit := do
  let sstatus ← (readCsr (·.sstatus)).translate .code
  .perform (.serve [] false)
  (writeCsr fun c => { c with sstatus }).translate .code
  sret.translate .code

def nestEffect {β : Type} : NestInstr β → Effect NestInstr Unit Unit (World Unit) β
  | .code (.act f) => .atomic f
  | .code (.spin lk) => .call ((spinBody lk).translate .code)
  | .code (.panic message) => .halt message
  | .code _ => .halt "not in spinlock.c"
  | .decide => .choose
  | .client held before => .call (nestClient held before)
  | .serve held before => .call (nestServe held before)

def nesting : Platform NestInstr Unit Unit (World Unit) where
  effect := nestEffect
  current _ _ := ()
  fresh _ _ := none
  trap h w w' := (w.csr h).sstatus.sie = true ∧ ∃ pc, w' = trapEntry pc h w
  handler := nestHandler

/-- Every lock is free and `SIE` has any value. -/
def nestStart (w : World Unit) : Config NestInstr Unit Unit (World Unit) where
  world := (w.setCpu () fun c => { c with noff := 0 }) |> fun w =>
    { w with lock := fun _ => ⟨none, none⟩ }
  code _ := .perform (.client [] (w.csr ()).sstatus.sie)
  saved _ := .perform (.client [] false)

namespace Nesting

/-! ## Where the hart stands -/

/-- The lock words say `held`, of which those in `full` are also entered in `lk->cpu`;
`extra` is 1 inside an unfinished pair, and `note` what is known of `intena`. -/
structure At (held full : List Lock) (extra : Nat) (sie : Bool) (note : Option Bool)
    (w : World Unit) : Prop where
  nodup : held.Nodup
  locked : ∀ lk, (w.lock lk).locked = some () ↔ lk ∈ held
  cpu : ∀ lk ∈ full, (w.lock lk).cpu = some ()
  sub : full ⊆ held
  noff : (w.cpus ()).noff = held.length + extra
  le : extra ≤ 1
  enabled : (w.csr ()).sstatus.sie = sie
  off : 0 < held.length + extra → sie = false
  intena : ∀ b ∈ note, (w.cpus ()).intena = b
  /-- With interrupts on, a handler may change `intena`. -/
  on : sie = true → note = none

/-- Between two calls. -/
def Between (held : List Lock) (before : Bool) : World Unit → Prop :=
  At held held 0 (if held = [] then before else false) (if held = [] then none else some before)

/-- What holds at every instant. -/
structure Inv (w : World Unit) : Prop where
  held : ∃ held : List Lock, held.Nodup ∧ (∀ lk, (w.lock lk).locked = some () ↔ lk ∈ held) ∧
    ((w.cpus ()).noff = held.length ∨ (w.cpus ()).noff = held.length + 1)
  off : 0 < (w.cpus ()).noff → (w.csr ()).sstatus.sie = false

variable {held full : List Lock} {extra : Nat} {sie before : Bool} {note : Option Bool}
  {w w' : World Unit} {lk : Lock}

theorem At.inv (at' : At held full extra sie note w) : Inv w := by
  have hnoff := at'.noff
  have hextra := at'.le
  refine ⟨⟨held, at'.nodup, at'.locked, ?_⟩, fun hpos => at'.enabled.trans (at'.off ?_)⟩
  · omega
  · omega

/-- A trap finds nothing held, and neither does the program when it goes on. -/
theorem At.trapped (at' : At held full extra sie note w) (hsie : (w.csr ()).sstatus.sie = true)
    (after : At [] [] 0 true none w') : At held full extra sie note w' := by
  obtain rfl : sie = true := at'.enabled.symm.trans hsie
  have hnone := at'.on rfl
  have hzero : ¬ 0 < held.length + extra := fun hpos => nomatch at'.off hpos
  obtain rfl : held = [] := List.eq_nil_of_length_eq_zero (by omega)
  obtain rfl : full = [] := List.eq_nil_of_subset_nil at'.sub
  obtain rfl : extra = 0 := by
    rw [List.length_nil] at hzero
    omega
  rw [hnone]
  exact after

end Nesting

/-! ## The logic -/

namespace Nesting

def logic : Logic nesting where
  Inv := Inv
  Rely _ w w' := w' = w
  Keep _ _ _ := True
  Resume _ _ _ := False
  Preempt _ _ _ w' := At [] [] 0 true none w'
  Handoff _ _ _ _ := False
  pre i _ w :=
    match i with
    | .code (.spin lk) => ∃ held full b, lk ∉ held ∧ At held full 1 false (some b) w
    | .client held before => Between held before w
    | .serve held before => before = false ∧ Between held before w
    | _ => True
  post i _ w _ _ w' :=
    match i with
    | .code (.spin lk) => w' = w.setLock lk fun l => { l with locked := some () }
    | .serve _ _ => At [] [] 0 false none w'
    | _ => False
  MayHalt _ := False
  Allowed _ _ _ := True
  keep_trans _ _ := trivial

variable {held full : List Lock} {extra : Nat} {sie before : Bool} {note : Option Bool}
  {w w' : World Unit} {lk : Lock} {P P' : World Unit → Prop}

/-- What survives an interrupt. -/
def Steady (P : World Unit → Prop) : Prop :=
  ∀ {w w'}, P w → (w.csr ()).sstatus.sie = true → At [] [] 0 true none w' → P w'

theorem env_steady (hP : Steady P) (hp : P w) {h h' : Unit} (env : logic.Env h w h' w') : P w' := by
  induction env with
  | refl => exact hp
  | rely _ others _ ih => exact others ▸ ih
  | preempt _ trap handled _ ih => exact hP ih trap.1 handled

/-- The code leads from `P` to `Q`. -/
def Spec (P : World Unit → Prop) (c : Program NestInstr α) (Q : α → World Unit → Prop) : Prop :=
  ∀ w, Inv w → P w → logic.wp c (fun value _ w' => Q value w') () w

abbrev Runs (P : World Unit → Prop) (c : Code Unit α) (Q : α → World Unit → Prop) : Prop :=
  Spec P (c.translate .code) Q

section Rules

variable {Q Q' : α → World Unit → Prop} {R : β → World Unit → Prop}

theorem Spec.done {value : α} (hP : ∀ w, P w → Q value w) : Spec P (pure value) Q :=
  fun w _ hp => hP w hp

theorem Spec.bind {c : Program NestInstr α} {rest : α → Program NestInstr β} (hc : Spec P c Q)
    (hrest : ∀ value, Spec (Q value) (rest value) R) : Spec P (c >>= rest) R := by
  intro w inv hp
  rw [Logic.wp_bind]
  exact Logic.wp_mono inv (fun value _ w' inv' hq => hrest value w' inv' hq) (hc w inv hp)

theorem Spec.mono {c : Program NestInstr α} (hP : ∀ w, P w → P' w)
    (hQ : ∀ value w, Q value w → Q' value w) (hc : Spec P' c Q) : Spec P c Q' :=
  fun w inv hp => Logic.wp_mono inv (fun value _ _ _ hq => hQ value _ hq) (hc w inv (hP w hp))

theorem Spec.known {p : Prop} {c : Program NestInstr α} (hc : p → Spec P c Q) :
    Spec (fun w => P w ∧ p) c Q :=
  fun w inv hp => hc hp.2 w inv hp.1

theorem Runs.bind {c : Code Unit α} {rest : α → Code Unit β} (hc : Runs P c Q)
    (hrest : ∀ value, Runs (Q value) (rest value) R) : Runs P (c >>= rest) R := by
  rw [Runs, Program.translate_bind]
  exact Spec.bind hc hrest

theorem Runs.act {f : Unit → World Unit → α × World Unit} (hP : Steady P)
    (hf : ∀ w, P w → Inv (f () w).2 ∧ Q (f () w).1 (f () w).2) : Runs P (Process.act f) Q := by
  intro w _ hp h' w' env _
  obtain ⟨inv, hq⟩ := hf w' (env_steady hP hp env)
  exact ⟨⟨inv, trivial, rfl, fun h hne => absurd rfl hne, fun _ _ => trivial⟩, hq⟩

theorem Runs.look {g : Unit → World Unit → α} (hP : Steady P)
    (hQ : ∀ w, P w → Q (g () w) w) : Runs P (Process.act fun h w => (g h w, w)) Q := by
  intro w _ hp h' w' env inv
  exact ⟨⟨inv, trivial, rfl, fun h hne => absurd rfl hne, fun _ _ => trivial⟩,
    hQ w' (env_steady hP hp env)⟩

end Rules

/-! ## spinlock.c -/

theorem steady_at : Steady (At held full extra sie note) :=
  fun at' hsie after => at'.trapped hsie after

theorem At.update {extra' : Nat} {sie' : Bool} {note' : Option Bool}
    (at' : At held full extra sie note w) (hlock : w'.lock = w.lock)
    (hnoff : (w'.cpus ()).noff = held.length + extra') (hle : extra' ≤ 1)
    (henabled : (w'.csr ()).sstatus.sie = sie') (hoff : 0 < held.length + extra' → sie' = false)
    (hintena : ∀ b ∈ note', (w'.cpus ()).intena = b) (hon : sie' = true → note' = none) :
    At held full extra' sie' note' w' :=
  ⟨at'.nodup, fun lk => by rw [hlock, at'.locked], fun lk hlk => by rw [hlock, at'.cpu lk hlk],
    at'.sub, hnoff, hle, henabled, hoff, hintena, hon⟩

theorem cpus_setCpu (f : Cpu → Cpu) : (w.setCpu () f).cpus () = f (w.cpus ()) := by
  simp [World.setCpu]

theorem sie_setSie (sie : Bool) : ((w.setSie () sie).csr ()).sstatus.sie = sie := by
  simp [World.setSie, World.setCsr]

theorem At.free (at' : At held full extra sie note w) (hlk : lk ∉ held) :
    (w.lock lk).locked = none := by
  cases hlocked : (w.lock lk).locked with
  | none => rfl
  | some h => exact absurd ((at'.locked lk).mp hlocked) hlk

theorem At.take {b : Bool} (at' : At held full 1 false (some b) w) (hlk : lk ∉ held) :
    At (lk :: held) full 0 false (some b)
      (w.setLock lk fun l => { l with locked := some () }) where
  nodup := List.nodup_cons.mpr ⟨hlk, at'.nodup⟩
  locked other := by
    by_cases heq : other = lk
    · subst heq
      simp [World.setLock]
    · simp [World.setLock, heq, at'.locked other]
  cpu other hother := by
    by_cases heq : other = lk
    · subst heq
      exact absurd (at'.sub hother) hlk
    · simpa [World.setLock, heq] using at'.cpu other hother
  sub := fun other hother => List.mem_cons_of_mem lk (at'.sub hother)
  noff := by
    have hnoff := at'.noff
    rw [List.length_cons]
    change (w.cpus ()).noff = _
    omega
  le := by decide
  enabled := at'.enabled
  off _ := rfl
  intena := at'.intena
  on := nofun

theorem At.enter {b : Bool} (at' : At (lk :: held) held 0 false (some b) w) :
    At (lk :: held) (lk :: held) 0 false (some b)
      (w.setLock lk fun l => { l with cpu := some () }) where
  nodup := at'.nodup
  locked other := by
    by_cases heq : other = lk
    · subst heq
      simpa [World.setLock] using at'.locked other
    · simpa [World.setLock, heq] using at'.locked other
  cpu other hother := by
    by_cases heq : other = lk
    · subst heq
      simp [World.setLock]
    · simpa [World.setLock, heq] using at'.cpu other ((List.mem_cons.mp hother).resolve_left heq)
  sub := fun _ hother => hother
  noff := at'.noff
  le := at'.le
  enabled := at'.enabled
  off := at'.off
  intena := at'.intena
  on := at'.on

theorem At.leave {b : Bool} (at' : At held held 0 false (some b) w) :
    At held (held.erase lk) 0 false (some b)
      (w.setLock lk fun l => { l with cpu := none }) where
  nodup := at'.nodup
  locked other := by
    by_cases heq : other = lk
    · subst heq
      simpa [World.setLock] using at'.locked other
    · simpa [World.setLock, heq] using at'.locked other
  cpu other hother := by
    obtain ⟨hne, hmem⟩ := at'.nodup.mem_erase_iff.mp hother
    simpa [World.setLock, hne] using at'.cpu other hmem
  sub := fun _ hother => List.mem_of_mem_erase hother
  noff := at'.noff
  le := at'.le
  enabled := at'.enabled
  off := at'.off
  intena := at'.intena
  on := at'.on

theorem At.drop {b : Bool} (at' : At held (held.erase lk) 0 false (some b) w) (hlk : lk ∈ held) :
    At (held.erase lk) (held.erase lk) 1 false (some b)
      (w.setLock lk fun l => { l with locked := none }) where
  nodup := at'.nodup.erase lk
  locked other := by
    rw [at'.nodup.mem_erase_iff]
    by_cases heq : other = lk
    · subst heq
      simp [World.setLock]
    · simpa [World.setLock, heq] using at'.locked other
  cpu other hother := by
    have hne := (at'.nodup.mem_erase_iff.mp hother).1
    simpa [World.setLock, hne] using at'.cpu other hother
  sub := fun _ hother => hother
  noff := by
    have hnoff := at'.noff
    have hlength := List.length_erase_add_one hlk
    change (w.cpus ()).noff = _
    omega
  le := le_rfl
  enabled := at'.enabled
  off _ := rfl
  intena := at'.intena
  on := nofun

theorem At.sets {b sie' : Bool} (at' : At [] [] 0 b none w) :
    At [] [] 0 sie' none (w.setSie () sie') :=
  at'.update rfl at'.noff (by decide) (sie_setSie sie') nofun nofun fun _ => rfl

/-- `push_off`, after which `intena` is the value of `SIE` before the outermost one. -/
theorem pushOff_runs {s b : Bool} :
    Runs (At held full 0 s (if held = [] then none else some b)) pushOff fun _ =>
      At held full 1 false (some (if held = [] then s else b)) := by
  have hget : Runs (At held full 0 s (if held = [] then none else some b)) intrGet fun old w =>
      At held full 0 s (if held = [] then none else some b) w ∧ old = s :=
    .look steady_at fun w at' => ⟨at', at'.enabled⟩
  refine hget.bind fun old => Spec.known ?_
  rintro rfl
  have hoff : Runs (At held full 0 old (if held = [] then none else some b)) intrOff fun _ =>
      At held full 0 false (if held = [] then none else some b) :=
    .act steady_at fun w at' => by
      have after : At held full 0 false _ (w.setSie () false) :=
        at'.update rfl at'.noff (by decide) (sie_setSie false) (fun _ => rfl) at'.intena nofun
      exact ⟨after.inv, after⟩
  refine hoff.bind fun _ => ?_
  have hread : Runs (At held full 0 false (if held = [] then none else some b))
      (readCpu (·.noff)) fun n w =>
        At held full 0 false (if held = [] then none else some b) w ∧ n = held.length :=
    .look steady_at fun w at' => ⟨at', by simpa using at'.noff⟩
  refine hread.bind fun n => Spec.known ?_
  rintro rfl
  have hcount : Runs (At held full 0 false (some (if held = [] then old else b)))
      (writeCpu fun c => { c with noff := c.noff + 1 }) fun _ =>
        At held full 1 false (some (if held = [] then old else b)) :=
    .act steady_at fun w at' => by
      have after : At held full 1 false (some (if held = [] then old else b))
          (w.setCpu () fun c => { c with noff := c.noff + 1 }) := by
        refine at'.update rfl ?_ (by decide) at'.enabled (fun _ => rfl) ?_ nofun
        · have hnoff := at'.noff
          rw [cpus_setCpu]
          simp only
          omega
        · rw [cpus_setCpu]
          exact at'.intena
      exact ⟨after.inv, after⟩
  by_cases hheld : held = []
  · subst hheld
    have hnote : Runs (At [] full 0 false none) (writeCpu fun c => { c with intena := old })
        fun _ => At [] full 0 false (some old) :=
      .act steady_at fun w at' => by
        have after : At [] full 0 false (some old)
            (w.setCpu () fun c => { c with intena := old }) := by
          refine at'.update rfl ?_ (by decide) at'.enabled nofun ?_ nofun
          · rw [cpus_setCpu]
            exact at'.noff
          · rintro b ⟨⟩
            rw [cpus_setCpu]
        exact ⟨after.inv, after⟩
    exact hnote.bind fun _ => hcount
  · have hne : ¬ (held.length : Int) = 0 := by
      simpa using hheld
    simp only [hne, if_false]
    simp only [hheld, if_false] at hcount ⊢
    exact hcount

theorem popOff_runs {b : Bool} :
    Runs (At held full 1 false (some b)) popOff fun _ =>
      At held full 0 (if held = [] then b else false) (if held = [] then none else some b) := by
  have hget : Runs (At held full 1 false (some b)) intrGet fun on w =>
      At held full 1 false (some b) w ∧ on = false :=
    .look steady_at fun w at' => ⟨at', at'.enabled⟩
  refine hget.bind fun on => Spec.known ?_
  rintro rfl
  have hread : Runs (At held full 1 false (some b)) (readCpu (·.noff)) fun n w =>
      At held full 1 false (some b) w ∧ n = held.length + 1 :=
    .look steady_at fun w at' => ⟨at', by simpa using at'.noff⟩
  refine hread.bind fun n => Spec.known ?_
  rintro rfl
  have hpos : ¬ (held.length : Int) + 1 < 1 := by omega
  simp only [hpos, if_false]
  have hcount : Runs (At held full 1 false (some b))
      (writeCpu fun c => { c with noff := c.noff - 1 }) fun _ => At held full 0 false (some b) :=
    .act steady_at fun w at' => by
      have after : At held full 0 false (some b)
          (w.setCpu () fun c => { c with noff := c.noff - 1 }) := by
        refine at'.update rfl ?_ (by decide) at'.enabled (fun _ => rfl) ?_ nofun
        · have hnoff := at'.noff
          rw [cpus_setCpu]
          simp only
          omega
        · rw [cpus_setCpu]
          exact at'.intena
      exact ⟨after.inv, after⟩
  have hagain : Runs (At held full 0 false (some b)) (readCpu (·.noff)) fun n w =>
      At held full 0 false (some b) w ∧ n = held.length :=
    .look steady_at fun w at' => ⟨at', by simpa using at'.noff⟩
  refine hcount.bind fun _ => hagain.bind fun n => Spec.known ?_
  rintro rfl
  by_cases hheld : held = []
  · subst hheld
    have hintena : Runs (At [] full 0 false (some b)) (readCpu (·.intena)) fun answer w =>
        At [] full 0 false (some b) w ∧ answer = b :=
      .look steady_at fun w at' => ⟨at', at'.intena b rfl⟩
    refine hintena.bind fun answer => Spec.known ?_
    rintro rfl
    cases answer with
    | false =>
        exact Spec.done fun w at' =>
          at'.update rfl at'.noff (by decide) at'.enabled nofun nofun nofun
    | true =>
        refine Runs.act steady_at fun w at' => ?_
        have after : At [] full 0 true none (w.setSie () true) :=
          at'.update rfl at'.noff (by decide) (sie_setSie true) nofun nofun fun _ => rfl
        exact ⟨after.inv, after⟩
  · have hne : ¬ (held.length : Int) = 0 := by simpa using hheld
    simp only [hne, if_false, hheld]
    exact Spec.done fun w at' => at'

theorem holding_out (hlk : lk ∉ held) :
    Runs (At held full extra sie note) (holding lk) fun answer w =>
      At held full extra sie note w ∧ answer = false := by
  have hread : Runs (At held full extra sie note) (readLock lk (·.locked)) fun locked w =>
      At held full extra sie note w ∧ locked = none :=
    .look steady_at fun w at' => ⟨at', at'.free hlk⟩
  refine hread.bind fun locked => Spec.known ?_
  rintro rfl
  exact Spec.done fun w at' => ⟨at', rfl⟩

theorem holding_in (hlk : lk ∈ full) :
    Runs (At held full extra sie note) (holding lk) fun answer w =>
      At held full extra sie note w ∧ answer = true := by
  have hread : Runs (At held full extra sie note) (readLock lk (·.locked)) fun locked w =>
      At held full extra sie note w ∧ locked = some () :=
    .look steady_at fun w at' => ⟨at', (at'.locked lk).mpr (at'.sub hlk)⟩
  have hcpu : Runs (At held full extra sie note) (readLock lk (·.cpu)) fun cpu w =>
      At held full extra sie note w ∧ cpu = some () :=
    .look steady_at fun w at' => ⟨at', at'.cpu lk hlk⟩
  have hself : Runs (At held full extra sie note) mycpu fun _ => At held full extra sie note :=
    .look steady_at fun w at' => at'
  refine hread.bind fun locked => Spec.known ?_
  rintro rfl
  refine hself.bind fun c => hcpu.bind fun cpu => Spec.known ?_
  rintro rfl
  exact Spec.done fun w at' => ⟨at', rfl⟩

theorem steady_off (hP : ∀ w, P w → (w.csr ()).sstatus.sie = false) : Steady P :=
  fun hp hsie _ => nomatch (hP _ hp).symm.trans hsie

theorem env_off (hsie : (w.csr ()).sstatus.sie = false) {h h' : Unit}
    (env : logic.Env h w h' w') : w' = w := by
  induction env with
  | refl => rfl
  | rely _ others _ ih => exact Eq.trans others ih
  | preempt _ trap _ _ ih =>
    subst ih
    exact nomatch hsie.symm.trans trap.1

/-- The world is `w₀`, inside an `acquire` of `lk`. -/
def Taking (lk : Lock) (w₀ w : World Unit) : Prop :=
  w = w₀ ∧ ∃ held full b, lk ∉ held ∧ At held full 1 false (some b) w

theorem spinBody_runs {w₀ : World Unit} : Runs (Taking lk w₀) (spinBody lk) fun _ w =>
    w = w₀.setLock lk fun l => { l with locked := some () } := by
  have hsteady : Steady (Taking lk w₀) := steady_off fun w taking => by
    obtain ⟨-, held, full, b, -, at'⟩ := taking
    exact at'.enabled
  have hset : Runs (Taking lk w₀) (testAndSet lk) fun already w =>
      w = (w₀.setLock lk fun l => { l with locked := some () }) ∧ already = false := by
    refine Runs.act hsteady ?_
    rintro w ⟨rfl, held, full, b, hlk, at'⟩
    rw [at'.free hlk]
    exact ⟨(at'.take hlk).inv, rfl, rfl⟩
  refine hset.bind fun already => Spec.known ?_
  rintro rfl
  exact Spec.done fun w' hw => hw

theorem spin_runs {b : Bool} (hlk : lk ∉ held) :
    Runs (At held full 1 false (some b)) (.perform (.spin lk)) fun _ =>
      At (lk :: held) full 0 false (some b) := by
  intro w _ at' h' w' env _
  obtain rfl := env_off at'.enabled env
  refine ⟨⟨held, full, b, hlk, at'⟩, fun _ _ w'' _ hpost => ?_⟩
  obtain rfl : w'' = _ := hpost
  exact at'.take hlk

theorem acquireBody_runs {s b : Bool} (hlk : lk ∉ held) :
    Runs (At held held 0 s (if held = [] then none else some b)) (acquireBody lk) fun _ =>
      At (lk :: held) (lk :: held) 0 false (some (if held = [] then s else b)) := by
  refine pushOff_runs.bind fun _ => (holding_out hlk).bind fun answer => Spec.known ?_
  rintro rfl
  refine (spin_runs hlk).bind fun _ => .act steady_at fun w at' => ?_
  have after := at'.enter
  exact ⟨after.inv, after⟩

theorem releaseBody_runs {b : Bool} (hlk : lk ∈ held) :
    Runs (At held held 0 false (some b)) (releaseBody lk) fun _ => Between (held.erase lk) b := by
  refine (holding_in hlk).bind fun answer => Spec.known ?_
  rintro rfl
  have hleave : Runs (At held held 0 false (some b))
      (act fun _ w => ((), w.setLock lk fun l => { l with cpu := none })) fun _ =>
        At held (held.erase lk) 0 false (some b) :=
    .act steady_at fun w at' => ⟨at'.leave.inv, at'.leave⟩
  have hdrop : Runs (At held (held.erase lk) 0 false (some b))
      (act fun _ w => ((), w.setLock lk fun l => { l with locked := none })) fun _ =>
        At (held.erase lk) (held.erase lk) 1 false (some b) :=
    .act steady_at fun w at' => ⟨(at'.drop hlk).inv, at'.drop hlk⟩
  exact hleave.bind fun _ => hdrop.bind fun _ => popOff_runs

theorem myprocBody_runs {b : Bool} :
    Runs (Between held b) myprocBody fun _ => Between held b := by
  by_cases hheld : held = []
  · subst hheld
    exact pushOff_runs.bind fun _ => Runs.bind (.look steady_at fun w at' => at') fun p =>
      popOff_runs.bind fun _ => Spec.done fun w at' => at'
  · simp only [Between, hheld, if_false]
    have hpush : Runs (At held held 0 false (some b)) pushOff fun _ =>
        At held held 1 false (some b) := by
      simpa only [hheld, if_false] using @pushOff_runs held held false b
    have hpop : Runs (At held held 1 false (some b)) popOff fun _ =>
        At held held 0 false (some b) := by
      simpa only [hheld, if_false] using @popOff_runs held held b
    exact hpush.bind fun _ => Runs.bind (.look steady_at fun w at' => at') fun p =>
      hpop.bind fun _ => Spec.done fun w at' => at'

/-! ## The programs and their handlers -/

theorem nestingBody_spec (action : Nesting) :
    Spec (Between held before) (nestingBody held before action) fun r w =>
      Between r.1 r.2 w ∧ (before = false → r.2 = false) := by
  cases action with
  | acquire lk =>
    simp only [nestingBody]
    split
    · exact Spec.done fun w between => ⟨between, id⟩
    · next hlk =>
      have hget : Runs (Between held before) intrGet fun old w =>
          Between held before w ∧ old = if held = [] then before else false :=
        .look steady_at fun w at' => ⟨at', at'.enabled⟩
      refine Spec.bind hget fun old => Spec.known ?_
      rintro rfl
      refine Spec.bind (acquireBody_runs hlk) fun _ => Spec.done fun w at' => ?_
      by_cases hheld : held = []
      · simp only [hheld, if_true] at at' ⊢
        exact ⟨at', id⟩
      · simp only [hheld, if_false] at at' ⊢
        exact ⟨at', id⟩
  | release lk =>
    simp only [nestingBody]
    split
    · next hlk =>
      have hheld : held ≠ [] := List.ne_nil_of_mem hlk
      have hrelease : Runs (Between held before) (releaseBody lk) fun _ =>
          Between (held.erase lk) before := by
        simp only [Between, hheld, if_false]
        exact releaseBody_runs hlk
      exact Spec.bind hrelease fun _ => Spec.done fun w between => ⟨between, id⟩
    · exact Spec.done fun w between => ⟨between, id⟩
  | myproc => exact Spec.bind myprocBody_runs fun _ => Spec.done fun w between => ⟨between, id⟩
  | setSie sie => exact Spec.done fun w between => ⟨between, id⟩
  | done => exact Spec.done fun w between => ⟨between, id⟩

theorem steady_between : Steady (Between held before) := steady_at

theorem decide_spec :
    Spec (Between held before) (.perform .decide) fun _ => Between held before :=
  fun _ _ between _ _ env _ _ => env_steady steady_between between env

theorem client_spec : Spec (Between held before) (.perform (.client held before))
    fun value _ => value.elim :=
  fun _ _ between _ _ env _ =>
    ⟨env_steady steady_between between env, fun value => value.elim⟩

theorem serve_spec : Spec (fun w => Between held before w ∧ before = false)
    (.perform (.serve held before)) fun _ => At [] [] 0 false none :=
  fun _ _ between _ _ env _ =>
    ⟨⟨between.2, env_steady steady_between between.1 env⟩, fun _ _ _ _ hpost => hpost⟩

theorem nestClient_spec :
    Spec (Between held before) (nestClient held before) fun value _ => value.elim := by
  have hgo : ∀ action, Spec (Between held before) (do
      let (held, before) ← nestingBody held before action
      .perform (.client held before)) fun value _ => value.elim := fun action =>
    (nestingBody_spec action).bind fun r => Spec.mono (fun _ hp => hp.1) (fun value => value.elim)
      client_spec
  refine decide_spec.bind fun action => ?_
  cases action with
  | setSie sie =>
    simp only
    split
    · next hheld =>
      subst hheld
      have hset : Runs (Between [] before) (if sie then intrOn else intrOff) fun _ =>
          Between [] sie := by
        cases sie with
        | false => exact .act steady_between fun w at' => ⟨at'.sets.inv, at'.sets⟩
        | true => exact .act steady_between fun w at' => ⟨at'.sets.inv, at'.sets⟩
      exact Spec.bind hset fun _ => client_spec
    · exact client_spec
  | acquire lk => exact hgo (.acquire lk)
  | release lk => exact hgo (.release lk)
  | myproc => exact hgo .myproc
  | done => exact hgo .done

theorem nestServe_spec : Spec (fun w => Between held before w ∧ before = false)
    (nestServe held before) fun _ => At [] [] 0 false none := by
  have hgo : ∀ action, Spec (fun w => Between held before w ∧ before = false) (do
      let (held, before) ← nestingBody held before action
      .perform (.serve held before)) fun _ => At [] [] 0 false none := fun action =>
    Spec.known fun hbefore => (nestingBody_spec action).bind fun r =>
      Spec.mono (fun _ hp => ⟨hp.1, hp.2 hbefore⟩) (fun _ _ hq => hq) serve_spec
  have hdecide : Spec (fun w => Between held before w ∧ before = false) (.perform .decide)
      fun _ w => Between held before w ∧ before = false :=
    Spec.known fun hbefore => Spec.mono (fun _ hp => hp) (fun _ _ hq => ⟨hq, hbefore⟩) decide_spec
  refine hdecide.bind fun action => ?_
  cases action with
  | done =>
    simp only
    split
    · next hheld =>
      subst hheld
      exact Spec.known fun hbefore => Spec.done fun w between => by
        subst hbefore
        exact between
    · exact serve_spec
  | acquire lk => exact hgo (.acquire lk)
  | release lk => exact hgo (.release lk)
  | myproc => exact hgo .myproc
  | setSie sie => exact hgo (.setSie sie)

/-- In a handler, which nothing interrupts; `spie` is what `sret` brings back. -/
def Handling (w : World Unit) : Prop :=
  At [] [] 0 false none w ∧ (w.csr ()).sstatus.spie = true

theorem nestHandler_spec : Spec Handling nestHandler fun _ => At [] [] 0 true none := by
  have hread : Runs Handling (readCsr (·.sstatus)) fun sstatus w =>
      At [] [] 0 false none w ∧ sstatus.sie = false ∧ sstatus.spie = true :=
    .look (steady_off fun w hp => hp.1.enabled) fun w hp => ⟨hp.1, hp.1.enabled, hp.2⟩
  refine Spec.bind hread fun sstatus => Spec.known ?_
  rintro ⟨hsie, hspie⟩
  have hserve : Spec (At [] [] 0 false none) (.perform (.serve [] false)) fun _ =>
      At [] [] 0 false none :=
    Spec.mono (fun _ hp => ⟨hp, rfl⟩) (fun _ _ hq => hq) serve_spec
  have hwrite : Runs (At [] [] 0 false none) (writeCsr fun c => { c with sstatus }) fun _ =>
      Handling :=
    .act steady_at fun w at' => by
      have after : At [] [] 0 false none (w.setCsr () fun c => { c with sstatus }) :=
        at'.update rfl at'.noff (by decide) (by simpa [World.setCsr] using hsie) nofun nofun nofun
      exact ⟨after.inv, after, by simpa [World.setCsr] using hspie⟩
  refine Spec.bind hserve fun _ => Spec.bind hwrite fun _ => ?_
  refine Runs.act (steady_off fun w hp => hp.1.enabled) fun w hp => ?_
  have after : At [] [] 0 true none (w.setCsr () fun c =>
      { c with sstatus := { sie := c.sstatus.spie, spie := true, spp := false } }) :=
    hp.1.update rfl hp.1.noff (by decide) (by simpa [World.setCsr] using hp.2) nofun nofun
      fun _ => rfl
  exact ⟨after.inv, after⟩

/-! ## All runs -/

/-- Interrupts are on only where nothing is held. -/
theorem Inv.idle (inv : Inv w) (hsie : (w.csr ()).sstatus.sie = true) :
    At [] [] 0 true none w := by
  have hnoff : ¬ 0 < (w.cpus ()).noff := fun hpos => nomatch hsie.symm.trans (inv.off hpos)
  obtain ⟨held, hnodup, hlocked, hcount⟩ := inv.held
  obtain rfl : held = [] := List.eq_nil_of_length_eq_zero (by omega)
  refine ⟨hnodup, hlocked, nofun, List.nil_subset _, ?_, by decide, hsie, nofun, nofun,
    fun _ => rfl⟩
  rw [List.length_nil] at hcount ⊢
  omega

theorem verified : logic.Verified where
  call {β i body h w} heffect inv hpre := by
    cases i with
    | code i =>
      cases i with
      | spin lk =>
        cases heffect
        exact spinBody_runs w inv ⟨rfl, hpre⟩
      | _ => cases heffect
    | decide => cases heffect
    | client held before =>
      cases heffect
      exact Logic.wp_mono inv (fun value => value.elim) (nestClient_spec w inv hpre)
    | serve held before =>
      cases heffect
      exact nestServe_spec w inv ⟨hpre.2, hpre.1⟩
  handler {h w w'} inv htrap := by
    obtain ⟨hsie, pc, rfl⟩ := htrap
    have idle := inv.idle hsie
    have entered : At [] [] 0 false none (trapEntry pc h w) :=
      idle.update rfl idle.noff (by decide) (by simp [trapEntry, World.setCsr]) nofun nofun nofun
    have hspie : ((trapEntry pc h w).csr ()).sstatus.spie = true := by
      simpa [trapEntry, World.setCsr] using hsie
    exact ⟨⟨entered.inv, trivial, rfl, fun _ hne => absurd rfl hne, fun _ _ => trivial⟩,
      nestHandler_spec _ entered.inv ⟨entered, hspie⟩⟩
  fresh hfresh := nomatch hfresh

theorem start_between (w : World Unit) :
    Between [] (w.csr ()).sstatus.sie (nestStart w).world where
  nodup := List.nodup_nil
  locked lk := by simp [nestStart]
  cpu lk hlk := nomatch hlk
  sub := List.nil_subset _
  noff := by simp [nestStart, World.setCpu]
  le := by decide
  enabled := rfl
  off := nofun
  intena := nofun
  on _ := rfl

theorem start_good (w : World Unit) : logic.Good (nestStart w) where
  inv := (start_between w).inv
  running h := by
    refine Logic.wp_mono (start_between w).inv (fun value => value.elim)
      (client_spec _ (start_between w).inv (start_between w))
  suspended c hc := absurd rfl (hc ())

/-- Between two calls `noff` is the number of locks held, and with none held `SIE` is
what it was just before the outermost `push_off`. -/
structure Settled (held : List Lock) (before : Bool) (w : World Unit) : Prop where
  nodup : held.Nodup
  locked : ∀ lk, (w.lock lk).locked = some () ↔ lk ∈ held
  noff : (w.cpus ()).noff = held.length
  restored : held = [] → (w.csr ()).sstatus.sie = before

theorem At.settled (between : Between held before w) : Settled held before w := by
  refine ⟨between.nodup, between.locked, by simpa using between.noff, ?_⟩
  rintro rfl
  exact between.enabled

/-- What the hart's code and state say at one instant of a run.  Inside a call `noff` may
be one more than the number of locks held. -/
structure Nested (m : Config NestInstr Unit Unit (World Unit)) : Prop where
  counted : Inv m.world
  calm : ∀ {β : Type} {message next},
    m.code () ≠ .step (.code (.panic message) : NestInstr β) next
  client : ∀ {held before next}, m.code () = .step (.client held before) next →
    Settled held before m.world
  serve : ∀ {held before next}, m.code () = .step (.serve held before) next →
    Settled held before m.world

theorem push_pop_nested (w : World Unit) {m : Config NestInstr Unit Unit (World Unit)}
    (hrun : Reachable nesting (nestStart w) m) : Nested m := by
  have good := (start_good w).reachable verified hrun
  refine ⟨good.inv, fun hcode => good.mayHalt hcode rfl, fun hcode => ?_, fun hcode => ?_⟩
  · exact At.settled (good.called hcode rfl)
  · exact At.settled (good.called hcode rfl).2

/-! ## A handler with two locks -/

/-- Accesses only. -/
def Acts (program : Code Unit α) : Prop :=
  program.Every fun i => match i with
    | .act _ => True
    | _ => False

theorem Acts.act (f : Unit → World Unit → β × World Unit) : Acts (Process.act f) :=
  ⟨trivial, fun _ => trivial⟩

theorem Acts.bind {program : Code Unit α} {rest : α → Code Unit β} (acts : Acts program)
    (hrest : ∀ value, Acts (rest value)) : Acts (program >>= rest) :=
  Program.Every.bind acts hrest

/-- They are the same to the hart that only runs `spinlock.c`. -/
theorem Acts.alone {program : Code Unit α} {r : Except String (α × World Unit)}
    (acts : Acts program) (hrun : Alone (platform Mm.sampleImage true) () program w r) :
    Alone nesting () (program.translate .code) w r := by
  induction program generalizing w with
  | done value =>
    cases hrun
    exact .done ..
  | step i next ih =>
    obtain ⟨hi, hnext⟩ := acts
    cases i with
    | act f =>
      cases hrun with
      | atomic heffect hrest =>
        cases heffect
        exact .atomic rfl (ih _ (hnext _) hrest)
      | call heffect | callHalts heffect | halt heffect => cases heffect
    | _ => cases hi

theorem acts_pushOff : Acts pushOff := by
  refine .bind (.act _) fun old => .bind (.act _) fun _ => .bind (.act _) fun noff => ?_
  split
  · exact .bind (.act _) fun _ => .act _
  · exact .act _

theorem acts_holding : Acts (holding lk) := by
  refine .bind (.act _) fun locked => ?_
  split
  · exact .bind (.act _) fun _ => .bind (.act _) fun _ => trivial
  · trivial

theorem alone_acquireBody (hfree : w.lock lk = ⟨none, none⟩) :
    Alone nesting () ((acquireBody lk).translate .code) w (.ok ((), w.taken () lk)) := by
  have hpush : Alone (platform Mm.sampleImage true) () (pushOff : Code Unit Unit) w _ :=
    alone_pushOff
  have hpushed : (w.pushed ()).lock lk = ⟨none, none⟩ := hfree
  have hholding : Alone (platform Mm.sampleImage true) () (holding lk : Code Unit Bool)
      (w.pushed ()) (.ok (false, w.pushed ())) := by
    have hrun : Alone (platform Mm.sampleImage true) () (holding lk : Code Unit Bool)
        (w.pushed ()) _ := alone_holding lk
    rw [hpushed] at hrun
    simpa using hrun
  have hset : Alone nesting () ((testAndSet lk : Code Unit Bool).translate .code) (w.pushed ())
      (.ok (false, (w.pushed ()).setLock lk fun l => { l with locked := some () })) := by
    have hrun : Alone nesting () ((testAndSet lk : Code Unit Bool).translate .code) (w.pushed ())
        (.ok (_, _)) := .atomic rfl (.done ..)
    simp only [hpushed] at hrun
    exact hrun
  have hspin : Alone nesting () (.perform (.code (.spin lk))) (w.pushed ())
      (.ok ((), (w.pushed ()).setLock lk fun l => { l with locked := some () })) :=
    .call rfl (hset.bind (.done ..)) (.done ..)
  have hlast : Alone nesting () ((act fun h w => ((), w.setLock lk fun l =>
      { l with cpu := some h }) : Code Unit Unit).translate .code)
      ((w.pushed ()).setLock lk fun l => { l with locked := some () })
      (.ok ((), w.taken () lk)) := by
    have hrun : Alone nesting () ((act fun h w => ((), w.setLock lk fun l =>
        { l with cpu := some h }) : Code Unit Unit).translate .code)
        ((w.pushed ()).setLock lk fun l => { l with locked := some () }) (.ok (_, _)) :=
      .atomic rfl (.done ..)
    simpa [World.taken, World.setLock] using hrun
  simp only [acquireBody, Program.translate_bind]
  refine (acts_pushOff.alone hpush).bind ((acts_holding.alone hholding).bind ?_)
  simp only [Bool.false_eq_true, if_false, Program.translate_bind]
  exact hspin.bind hlast

variable (lk) in
theorem leads_serve {saved : Unit → Program NestInstr Empty}
    {next : Unit → Program NestInstr Empty} (hlk : lk ∉ held) (hfree : w.lock lk = ⟨none, none⟩)
    (hsie : (w.csr ()).sstatus.sie = false) :
    Reachable nesting (lone w (.perform (.serve held false) >>= next) saved)
      (lone (w.taken () lk) (.perform (.serve (lk :: held) false) >>= next) saved) := by
  have hget : Alone nesting () ((intrGet : Code Unit Bool).translate .code) w
      (.ok (false, w)) := by
    have hrun : Alone nesting () ((intrGet : Code Unit Bool).translate .code) w (.ok (_, _)) :=
      .atomic rfl (.done ..)
    rwa [hsie] at hrun
  have hdecide : nesting.effect .decide = .choose := rfl
  refine (leads_call rfl).trans ?_
  simp only [nestServe, bind_assoc]
  refine (leads_choice hdecide (Nesting.acquire lk)).trans ?_
  simp only [nestingBody, hlk, if_false, bind_assoc]
  refine (leads_alone hget).trans ((leads_alone (alone_acquireBody hfree)).trans ?_)
  simp only [ite_self]
  exact .refl

/-- A handler that has come in takes two locks, one inside the other. -/
theorem push_pop_nested_sample : ∃ m next,
    Reachable nesting (nestStart (bootWorld ⟨fun _ => 0, 0, 0⟩)) m ∧
    m.code () = .step (.serve [.print, .ticks] false) next ∧
    (m.world.csr ()).sstatus.spie = true ∧ (m.world.cpus ()).noff = 2 ∧
    Settled [.print, .ticks] false m.world ∧ Nested m := by
  let w₀ : World Unit := (nestStart (bootWorld ⟨fun _ => 0, 0, 0⟩)).world
  let w₁ := trapEntry 0 () w₀
  let w₂ := w₁.taken () .ticks
  let client : Program NestInstr Empty := .perform (.client [] true)
  have hstart : nestStart (bootWorld ⟨fun _ => 0, 0, 0⟩) =
      lone w₀ client fun _ => .perform (.client [] false) := rfl
  have htrap : Reachable nesting (nestStart (bootWorld ⟨fun _ => 0, 0, 0⟩))
      (lone w₁ (nestHandler >>= fun _ => client) fun _ => .perform (.client [] false)) := by
    rw [hstart]
    exact lone_next (.single (.trap (m := lone w₀ client _) () ⟨rfl, 0, rfl⟩))
  have hread : Alone nesting () ((readCsr (·.sstatus) : Code Unit Sstatus).translate .code) w₁
      (.ok (_, _)) := .atomic rfl (.done ..)
  have hsie₁ : (w₁.csr ()).sstatus.sie = false := by simp [w₁, trapEntry, World.setCsr]
  have hsie₂ : (w₂.csr ()).sstatus.sie = false := by
    simp [w₂, World.taken, World.pushed, World.setLock, World.setCpu, World.setSie,
      World.setCsr]
  have hfree : w₂.lock .print = ⟨none, none⟩ := World.lock_taken_other (by decide)
  simp only [nestHandler, bind_assoc] at htrap
  have hserve := htrap.trans ((leads_alone hread).trans
    ((leads_serve .ticks List.not_mem_nil rfl hsie₁).trans
      (leads_serve .print (by simp) hfree hsie₂)))
  have nested := push_pop_nested _ hserve
  have settled : Settled [.print, .ticks] false (w₂.taken () .print) := nested.serve rfl
  exact ⟨_, _, hserve, rfl, rfl, settled.noff, settled, nested⟩

end Nesting

end Xv6Kernel.Process
