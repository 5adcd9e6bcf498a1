import Xv6Kernel.Foundation.Watching
import Xv6Kernel.Process.Plain
import Xv6Kernel.Process.Interruption

/-!
# No overtaking

The one hart's scheduler goes round the process table.  The history of a run holds the
pairs of slots `p`, `q` such that `q` has been waiting since `p` was dispatched; the
pass over the table comes to all such `q` before it comes to `p`.
-/

namespace Xv6Kernel.Process

open Xv6Kernel.Foundation Xv6Kernel.Mm

variable {img : Image} {quiet : Bool} {w w' : World Unit} {p q : Slot} {k k' : Kernel}

/-- The process in `p` is given the hart. -/
def Dispatched (p : Slot) (k k' : Kernel) : Prop :=
  (k.proc p).state ≠ .running ∧ (k'.proc p).state = .running

theorem Undispatched.not (h : Undispatched k k') : ¬ Dispatched p k k' :=
  fun hp => hp.1 (h p hp.2)

/-- The pairs of slots of which the second has been waiting since the first was
dispatched. -/
abbrev Waiting := Slot → Slot → Prop

/-- The slots from the `n`th on have still to be looked at in this pass. -/
def Waiting.Ahead (n : Nat) (g : Waiting) : Prop :=
  ∀ p q, g p q → if p.val < n then n ≤ q.val ∨ q.val < p.val else n ≤ q.val ∧ q.val < p.val

theorem Waiting.Ahead.fewer {g g' : Waiting} {n : Nat} (h : g.Ahead n)
    (hfewer : ∀ p q, g' p q → g p q) : g'.Ahead n :=
  fun p q hg => h p q (hfewer p q hg)

/-- A slot for which nobody waits is passed over. -/
theorem Waiting.Ahead.pass {g : Waiting} (h : g.Ahead p.val) (hp : ∀ r, ¬ g r p) :
    g.Ahead (p.val + 1) := by
  intro r q hg
  have hne : q.val ≠ p.val := fun heq => hp r (Fin.ext heq ▸ hg)
  have hahead := h r q hg
  split at hahead <;> split <;> omega

theorem Waiting.Ahead.again {g : Waiting} {n : Nat} (hn : nproc ≤ n) (h : g.Ahead n) :
    g.Ahead 0 := by
  intro r q hg
  have hahead := h r q hg
  have hr := r.isLt
  have hq := q.isLt
  rw [if_pos (by omega)] at hahead
  rw [if_neg (by omega)]
  omega

def turns (img : Image) (quiet : Bool) :
    Watch (platform img quiet : Platform (Instr Unit) Unit (Ctx Unit) (World Unit)) Waiting where
  context := .cpu ()
  next w w' g p q :=
    (w'.kernel.proc q).state = .runnable ∧ (Dispatched p w.kernel w'.kernel ∨ g p q)
  Inv w g := ∀ p q, g p q → (w.kernel.proc q).state = .runnable
  Away _ g _ g' := ∀ p q, g' p q → g p q
  Allowed w g w' := ∀ p, Dispatched p w.kernel w'.kernel →
    (∀ q, ¬ g p q) ∧ ∀ q, Dispatched q w.kernel w'.kernel → q = p
  pre i _ g :=
    match i with
    | .scheduling => g.Ahead 0
    | .wfi => True
    | i => i.Plain
  post _ _ g _ _ g' := ∀ p q, g' p q → g p q
  inv_next _ _ _ hg := hg.1
  next_self hinv := by
    funext p q
    exact propext ⟨fun hg => hg.2.resolve_left fun hd => hd.1 hd.2, fun hg => ⟨hinv p q hg, .inr hg⟩⟩
  away_refl _ _ := id
  away_trans h h' p q hg := h p q (h' p q hg)
  allowed_self _ hd := absurd hd.2 hd.1

variable {g g' : Waiting} {α : Type} {code : Code Unit α}

theorem lenient_turns : Lenient (turns img quiet) where
  access _ h := ⟨fun _ hd => absurd hd h.not, fun _ _ hg => hg.2.resolve_left h.not⟩
  pre {_ i _ _} hi := by
    cases i with
    | act | choose | panic | diverge | swtch | acquire | release | spin | myproc => exact hi
    | waitLoop | scheduling | initLoop | client | enter | atEntry | wfi => cases hi
  post _ hpost := hpost

/-! ## The pass over the table -/

theorem drop_slots {n : Nat} {ps : List Slot} (h : slots.drop n = p :: ps) :
    p.val = n ∧ slots.drop (n + 1) = ps := by
  have hget : slots[n]? = some p := by
    have := congrArg List.head? h
    simpa using this
  refine ⟨?_, ?_⟩
  · obtain ⟨_, rfl⟩ := List.getElem?_eq_some_iff.mp hget
    simp [slots]
  · rw [← List.drop_drop, h]
    rfl

theorem Plain.swtchToProc (p : Slot) : Plain (Process.swtchToProc p : Code Unit Unit) :=
  .bind (.still fun _ _ => rfl) fun _ => .bind .choose fun _ => .perform trivial

/-- The scheduler makes the slot `p` `RUNNING`. -/
def Kernel.dispatch (k : Kernel) (p : Slot) : Kernel :=
  k.setProc p fun s => { s with state := .running }

theorem Dispatched.eq (h : Dispatched q k (k.dispatch p)) : q = p := by
  by_contra hne
  exact h.1 (by simpa [Kernel.dispatch, Kernel.setProc, hne] using h.2)

/-- Nobody waits for the slot that is dispatched, and nobody has been waiting since its
last turn. -/
theorem Waiting.Ahead.not (h : g.Ahead p.val) (q : Slot) : ¬ g p q := by
  intro hg
  have hahead := h p q hg
  rw [if_neg (Nat.lt_irrefl _)] at hahead
  omega

theorem Waiting.Ahead.dispatch (h : g.Ahead p.val)
    (hnext : ∀ r q, g' r q → ((k.dispatch p).proc q).state = .runnable ∧
      (Dispatched r k (k.dispatch p) ∨ g r q)) : g'.Ahead (p.val + 1) := by
  intro r q hg
  obtain ⟨hstate, hwaits⟩ := hnext r q hg
  have hne : q ≠ p := by
    rintro rfl
    simp [Kernel.dispatch, Kernel.setProc] at hstate
  have hval : q.val ≠ p.val := fun heq => hne (Fin.ext heq)
  rcases hwaits with hd | hg
  · obtain rfl := hd.eq
    rw [if_pos (Nat.lt_succ_self _)]
    omega
  · have hahead := h r q hg
    have hr : r.val ≠ p.val := fun heq => h.not q (Fin.ext heq ▸ hg)
    split at hahead <;> split <;> omega

theorem safe_schedScan {n : Nat} {ps : List Slot} (hps : slots.drop n = ps) (found : Bool)
    (hinv : (turns img quiet).Inv w g) (hahead : g.Ahead n) :
    (turns img quiet).safe () (schedScan ps found) (fun _ _ g' => g'.Ahead 0) w g := by
  induction ps generalizing n w g found with
  | nil =>
      have hn : nproc ≤ n := by simpa [slots] using hps
      exact hahead.again hn
  | cons p ps ih =>
      obtain ⟨rfl, hrest⟩ := drop_slots hps
      refine lenient_turns.seq (.acquire _) hinv fun _ w₁ g₁ hinv₁ haway₁ => ?_
      refine (Watch.safe_bind ..).mpr fun w₂ g₂ pause₂ hinv₂ => ⟨Watch.allowed_self _, ?_⟩
      have hahead₂ : g₂.Ahead p.val := hahead.fewer fun r q hg => haway₁ r q (pause₂.away r q hg)
      rw [Watch.next_self _ hinv₂]
      change (turns img quiet).safe () (if (w₂.kernel.proc p).state = .runnable then _ else _) _ _ _
      split
      · -- `p` is dispatched, and nobody has been waiting since its last turn
        refine (Watch.safe_bind ..).mpr fun w₃ g₃ pause₃ hinv₃ => ?_
        have hahead₃ : g₃.Ahead p.val := hahead₂.fewer pause₃.away
        have hahead₄ : Waiting.Ahead (p.val + 1) ((turns img quiet).next w₃ (w₃.dispatch () p) g₃) :=
          hahead₃.dispatch (k := w₃.kernel) fun _ _ hg => hg
        refine ⟨fun r hr => ?_, ?_⟩
        · obtain rfl : r = p := hr.eq
          exact ⟨hahead₃.not, fun q hq => hq.eq⟩
        · refine lenient_turns.seq (.swtchToProc p) ((turns img quiet).inv_next hinv₃)
            fun _ w₅ g₅ hinv₅ haway₅ => ?_
          refine lenient_turns.seq (.still fun _ _ => rfl) hinv₅ fun _ w₆ g₆ hinv₆ haway₆ => ?_
          refine lenient_turns.seq (.release _) hinv₆ fun _ w₇ g₇ hinv₇ haway₇ => ?_
          exact ih hrest true hinv₇ (hahead₄.fewer fun r q hg =>
            haway₅ r q (haway₆ r q (haway₇ r q hg)))
      · next hnot =>
        have hpass : g₂.Ahead (p.val + 1) := hahead₂.pass fun r hg => hnot (hinv₂ r p hg)
        refine lenient_turns.seq (.release _) hinv₂ fun _ w₃ g₃ hinv₃ haway₃ => ?_
        exact ih hrest found hinv₃ (hpass.fewer haway₃)

/-! ## Every program of the scheduler's stack -/

theorem safe_scheduling {Q : Empty → World Unit → Waiting → Prop}
    (hahead : g.Ahead 0) : (turns img quiet).safe () (.perform .scheduling) Q w g :=
  fun _ _ pause _ => ⟨hahead.fewer pause.away, fun never => never.elim⟩

theorem safe_schedulingBody {Q : Empty → World Unit → Waiting → Prop}
    (hinv : (turns img quiet).Inv w g) (hahead : g.Ahead 0) :
    (turns img quiet).safe () schedulingBody Q w g := by
  refine lenient_turns.seq (.still fun _ _ => rfl) hinv fun _ w₁ g₁ hinv₁ haway₁ => ?_
  refine lenient_turns.seq (.still fun _ _ => rfl) hinv₁ fun _ w₂ g₂ hinv₂ haway₂ => ?_
  have hahead₂ : g₂.Ahead 0 := hahead.fewer fun p q hg => haway₁ p q (haway₂ p q hg)
  refine Watch.safe_seq hinv₂ (safe_schedScan rfl false hinv₂ hahead₂)
    fun found w₃ g₃ hinv₃ hahead₃ => ?_
  cases found with
  | true => exact safe_scheduling hahead₃
  | false =>
      refine (Watch.safe_bind ..).mpr fun w₄ g₄ pause₄ _ => ⟨trivial, fun _ w₅ g₅ _ hpost => ?_⟩
      exact safe_scheduling (hahead₃.fewer fun p q hg => pause₄.away p q (hpost p q hg))

theorem sound_turns : (turns img quiet).Sound () where
  call {_ i _ _ _} hbody hinv hpre := by
    cases i with
    | act | choose | panic | swtch => cases hbody
    | diverge | acquire | release | spin | myproc =>
        refine lenient_turns.safe (Plain.called ?_ hbody) hinv
        trivial
    | scheduling =>
        cases hbody
        exact safe_schedulingBody hinv hpre
    | wfi =>
        cases hbody
        exact fun _ _ => id
    | waitLoop | initLoop | client | enter | atEntry => cases hpre
  handler {w wt _} hinv htrap := by
    obtain ⟨-, -, pc, rfl⟩ := htrap
    have hsame : Undispatched w.kernel (trapEntry pc () w).kernel := .refl _
    obtain ⟨hallowed, haway⟩ := lenient_turns.access hinv hsame
    refine ⟨hallowed, ?_⟩
    exact Lenient.later haway (lenient_turns.safe (.kernelvec img) (Watch.inv_next _ hinv))
      (Watch.inv_next _ hinv)
  started _ := rfl

theorem others_turns {S : Setting Unit} :
    (turns S.img S.quiet).Others () (logic S) := by
  intro w w' g hinv hcur hmoves
  have hcpu : ∀ h₀, w.cur () ≠ .cpu h₀ := fun _ => hcur
  have hsame : Undispatched w.kernel w'.kernel := by
    intro p hp
    have hmove := hmoves p
    change StateMove _ p _ (w.kernel.proc p).state (w'.kernel.proc p).state at hmove
    rw [hp] at hmove
    generalize (w.kernel.proc p).state = s at hmove ⊢
    cases hmove with
    | still | leave => rfl
    | dispatch h₀ hc => exact absurd hc (hcpu h₀)
  obtain ⟨hallowed, haway⟩ := lenient_turns.access hinv hsame
  exact ⟨haway, hallowed⟩

theorem watches_boot (S : Setting Unit) (entries : List Word) (memory : Memory) :
    (turns S.img S.quiet).Watches () (boot S.img () entries memory) fun _ _ => False where
  inv _ _ := False.elim
  running _ := by
    let D := turns S.img S.quiet
    have hstart : D.Inv (bootWorld memory) fun _ _ => False := fun _ _ => False.elim
    refine lenient_turns.seq (.userinit S.img) hstart fun _ w₁ g₁ hinv₁ haway₁ => ?_
    have creates : Plain (Program.forEach entries fun entrypoint => do
        let _ ← createProcess S.img entrypoint : Code Unit Unit) :=
      .forEach fun _ => .bind (.createProcess ..) fun _ => .pure _
    refine lenient_turns.seq creates hinv₁ fun _ w₂ g₂ hinv₂ haway₂ => ?_
    refine lenient_turns.seq (.still fun _ _ => rfl) hinv₂ fun _ w₃ g₃ hinv₃ haway₃ => ?_
    exact safe_scheduling fun p q hg => (haway₁ p q (haway₂ p q (haway₃ p q hg))).elim
  suspended hne := absurd rfl hne

/-! ## Runs -/

variable {S : Setting Unit} {entries : List Word} {memory : Memory}
  {run : Nat → Config (Instr Unit) Unit (Ctx Unit) (World Unit)} {n i j : Nat}

/-- The first `n` steps of `run` are steps of the machine from its start on. -/
structure RunOf (S : Setting Unit) (entries : List Word) (memory : Memory)
    (run : Nat → Config (Instr Unit) Unit (Ctx Unit) (World Unit)) (n : Nat) : Prop where
  boot : run 0 = boot S.img () entries memory
  step : ∀ k < n, Step (platform S.img S.quiet) (run k) (run (k + 1))

/-- The process in `p` is given the hart in the step from `run i`. -/
def DispatchedAt (run : Nat → Config (Instr Unit) Unit (Ctx Unit) (World Unit)) (p : Slot)
    (i : Nat) : Prop :=
  Dispatched p (run i).world.kernel (run (i + 1)).world.kernel

theorem RunOf.watches (hrun : RunOf S entries memory run n) {k : Nat} (hk : k ≤ n) :
    (logic S).Good (run k) ∧ (turns S.img S.quiet).Watches () (run k)
      ((turns S.img S.quiet).history run (fun _ _ => False) k) := by
  refine Watch.Watches.run verified (fun _ => rfl) sound_turns others_turns
    (fun k' hk' => hrun.step k' (hk'.trans_le hk)) ?_ ?_
  · rw [hrun.boot]
    exact good_boot S entries memory
  · rw [hrun.boot]
    exact watches_boot S entries memory

theorem RunOf.allowed (hrun : RunOf S entries memory run n) {k : Nat} (hk : k < n) :
    (turns S.img S.quiet).Allowed (run k).world
      ((turns S.img S.quiet).history run (fun _ _ => False) k) (run (k + 1)).world := by
  obtain ⟨good, watches⟩ := hrun.watches hk.le
  exact (watches.step verified (fun _ => rfl) sound_turns others_turns good (hrun.step k hk)).2

/-- A waiting process stays so until it is dispatched. -/
theorem RunOf.waits (hrun : RunOf S entries memory run n) {k : Nat} (hk : k < n)
    (hq : ((run k).world.kernel.proc q).state = .runnable) (hnot : ¬ DispatchedAt run q k) :
    ((run (k + 1)).world.kernel.proc q).state = .runnable := by
  obtain ⟨h, -, hsame | hmoves⟩ := (hrun.watches hk.le).1.allowed verified (hrun.step k hk)
  · rwa [hsame]
  · have hmove := hmoves q
    change StateMove _ q _ ((run k).world.kernel.proc q).state _ at hmove
    rw [hq] at hmove
    generalize hs : (run (k + 1)).world.kernel.state q = s at hmove
    cases hmove with
    | still => exact hs
    | dispatch => exact absurd ⟨by rw [hq]; nofun, hs⟩ hnot

/-- Between two dispatches of `p` each process that was waiting at the first has its
turn. -/
theorem dispatched_between (hrun : RunOf S entries memory run n) (hpq : p ≠ q) (hij : i < j)
    (hj : j < n) (hfirst : DispatchedAt run p i) (hsecond : DispatchedAt run p j)
    (hq : ((run i).world.kernel.proc q).state = .runnable) :
    ∃ k, i < k ∧ k < j ∧ DispatchedAt run q k := by
  by_contra hnone
  have hidle : ∀ k, i < k → k < j → ¬ DispatchedAt run q k := fun k hik hkj hk =>
    hnone ⟨k, hik, hkj, hk⟩
  let history := (turns S.img S.quiet).history run (fun _ _ => False)
  have hwaiting : ∀ k, i + 1 ≤ k → k ≤ j →
      ((run k).world.kernel.proc q).state = .runnable ∧ history k p q := by
    intro k hik
    induction k, hik using Nat.le_induction with
    | base =>
        intro _
        have halone := (hrun.allowed (hij.trans hj) p hfirst).2
        have hstate := hrun.waits (hij.trans hj) hq fun hd => hpq (halone q hd).symm
        exact ⟨hstate, hstate, .inl hfirst⟩
    | succ k hik ih =>
        intro hkj
        obtain ⟨hstate, hhist⟩ := ih (Nat.le_of_succ_le hkj)
        have hnext := hrun.waits (by omega) hstate (hidle k hik hkj)
        exact ⟨hnext, hnext, .inr hhist⟩
  exact (hrun.allowed hj p hsecond).1 q (hwaiting j hij le_rfl).2

/-! ## A run with two dispatches -/

section Extend

variable {m : Config (Instr Unit) Unit (Ctx Unit) (World Unit)}

theorem update_le {k : Nat} (hk : k ≤ n) : Function.update run (n + 1) m k = run k :=
  Function.update_of_ne (by omega) ..

theorem RunOf.snoc (hrun : RunOf S entries memory run n)
    (hstep : Step (platform S.img S.quiet) (run n) m) :
    RunOf S entries memory (Function.update run (n + 1) m) (n + 1) where
  boot := by
    rw [update_le (Nat.zero_le n)]
    exact hrun.boot
  step k hk := by
    rw [update_le (Nat.le_of_lt_succ hk)]
    rcases Nat.lt_succ_iff_lt_or_eq.mp hk with hlt | rfl
    · rw [update_le (Nat.succ_le_of_lt hlt)]
      exact hrun.step k hlt
    · rwa [Function.update_self]

/-- A run goes on to whatever its last state leads to. -/
theorem RunOf.extend (hrun : RunOf S entries memory run n)
    (hreach : Reachable (platform S.img S.quiet) (run n) m) :
    ∃ run' n', RunOf S entries memory run' n' ∧ n ≤ n' ∧ run' n' = m ∧
      ∀ k ≤ n, run' k = run k := by
  induction hreach with
  | refl => exact ⟨run, n, hrun, le_rfl, rfl, fun _ _ => rfl⟩
  | tail _ hstep ih =>
      obtain ⟨run', n', hrun', hle, rfl, hsame⟩ := ih
      exact ⟨_, _, hrun'.snoc hstep, by omega, Function.update_self .., fun k hk =>
        (update_le (hk.trans hle)).trans (hsame k hk)⟩

theorem RunOf.hands (hrun : RunOf S entries memory run n)
    (hands : Hands S.img S.quiet p k (run n) m) (hp : (k.proc p).state = .runnable) :
    ∃ run' n' i, RunOf S entries memory run' n' ∧ n ≤ i ∧ i < n' ∧ run' n' = m ∧
      (∀ j ≤ n, run' j = run j) ∧ DispatchedAt run' p i ∧ (run' i).world.kernel = k := by
  obtain ⟨m₁, m₂, hbefore, hstep, hk₁, hk₂, hafter⟩ := hands
  obtain ⟨run₁, i, hrun₁, hni, rfl, hsame₁⟩ := hrun.extend hbefore
  have hlast : Function.update run₁ (i + 1) m₂ (i + 1) = m₂ := Function.update_self ..
  rw [← hlast] at hafter
  obtain ⟨run₂, n₂, hrun₂, hi, hend, hsame₂⟩ := (hrun₁.snoc hstep).extend hafter
  have hbefore₂ : ∀ j ≤ i, run₂ j = run₁ j := fun j hj =>
    (hsame₂ j (Nat.le_succ_of_le hj)).trans (update_le hj)
  refine ⟨run₂, n₂, i, hrun₂, hni, hi, hend, fun j hj =>
    (hbefore₂ j (hj.trans hni)).trans (hsame₁ j hj), ?_, ?_⟩
  · rw [DispatchedAt, hbefore₂ i le_rfl, hsame₂ (i + 1) le_rfl, hlast, hk₁, hk₂]
    refine ⟨?_, by simp⟩
    rw [hp]
    nofun
  · rw [hbefore₂ i le_rfl]
    exact hk₁

end Extend

/-- In the sample run the second process of `main` has two turns, and `initproc` one in
between. -/
theorem dispatched_between_sample : ∃ memory run i j k,
    DispatchedAt run slot₂ i ∧ DispatchedAt run slot₂ j ∧ i < k ∧ k < j ∧
      DispatchedAt run slot₀ k ∧
      run 0 = boot sampleImage () [sampleEntry, sampleEntry] memory := by
  obtain ⟨memory, m₀, k₀, m₁, k₁, w, k, saved, sie, hboot, hfirst, hsecond, hwaits₀, hwaits₂,
    hagain, -⟩ := leads_reentered
  have start : RunOf ⟨sampleImage, (), false⟩ [sampleEntry, sampleEntry] memory
      (fun _ => boot sampleImage () [sampleEntry, sampleEntry] memory) 0 := ⟨rfl, nofun⟩
  obtain ⟨run₀, n₀, hrun₀, -, rfl, -⟩ := start.extend hboot
  obtain ⟨run₁, n₁, i, hrun₁, -, hi, rfl, -, hat₁, hk₀⟩ := hrun₀.hands hfirst hwaits₂
  obtain ⟨run₂, n₂, j, hrun₂, hj, hj₂, -, hsame, hat₂, -⟩ := hrun₁.hands hsecond hagain
  have hat : DispatchedAt run₂ slot₂ i := by
    rw [DispatchedAt, hsame i hi.le, hsame (i + 1) hi]
    exact hat₁
  have hwaits : ((run₂ i).world.kernel.proc slot₀).state = .runnable := by
    rw [hsame i hi.le, hk₀]
    exact hwaits₀
  obtain ⟨k', hik, hkj, hbetween⟩ := dispatched_between hrun₂ (p := slot₂) (q := slot₀)
    (by decide) (hi.trans_le hj) hj₂ hat hat₂ hwaits
  exact ⟨memory, run₂, i, j, k', hat, hat₂, hik, hkj, hbetween, hrun₂.boot⟩

end Xv6Kernel.Process
