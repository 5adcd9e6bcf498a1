import Xv6Kernel.Process.Naps
import Xv6Kernel.Process.RoundRobin

/-!
# Waiting for an interrupt

When a pass over the table has run nobody, `SIE` has been clear all along: the locks
taken on the way bring it back to what it was.  So nobody became runnable behind the
scheduler's back.
-/

namespace Xv6Kernel.Process

open Xv6Kernel.Foundation Xv6Kernel.Mm

variable {img : Image} {quiet : Bool} {w w' : World Unit} {p : Slot} {α β : Type}
  {g : Unit} {lk : Lock}

/-- Interrupts are off, and the data are those of `w`. -/
structure Still (w w' : World Unit) : Prop where
  kernel : w'.kernel = w.kernel
  sie : (w'.csr ()).sstatus.sie = false

/-- The same inside a lock, which will not turn interrupts on when it is released. -/
structure Nested (w w' : World Unit) : Prop extends Still w w' where
  intena : (w'.cpus ()).noff = 1 → (w'.cpus ()).intena = false

theorem Nested.self (nested : Nested w w') : Nested w' w' :=
  ⟨⟨rfl, nested.sie⟩, nested.intena⟩

theorem Nested.trans {w'' : World Unit} (nested : Nested w w') (nested' : Nested w' w'') :
    Nested w w'' :=
  ⟨⟨nested'.kernel.trans nested.kernel, nested'.sie⟩, nested'.intena⟩

/-- Writing the lock words changes nothing of this. -/
theorem Nested.setLock (nested : Nested w w') (lk : Lock) (f : SpinLock Unit → SpinLock Unit) :
    Nested w (w'.setLock lk f) :=
  ⟨⟨nested.kernel, nested.sie⟩, nested.intena⟩

theorem Nested.still {w'' : World Unit} (nested : Nested w w') (still : Still w' w'') :
    Still w w'' :=
  ⟨still.kernel.trans nested.kernel, still.sie⟩

theorem not_trap (hsie : (w.csr ()).sstatus.sie = false) (wt : World Unit) :
    ¬ (platform img quiet).trap () w wt := by
  rintro ⟨hon, -⟩
  rw [hsie] at hon
  cases hon

def idling (img : Image) (quiet : Bool) :
    Watch (platform img quiet : Platform (Instr Unit) Unit (Ctx Unit) (World Unit)) Unit where
  context := .cpu ()
  next _ _ g := g
  Inv _ _ := True
  Away _ _ _ _ := True
  Allowed _ _ _ := True
  pre i w _ :=
    match i with
    | .wfi => ∀ p, (w.kernel.proc p).state ≠ .runnable
    | .scheduling => True
    | i => i.Plain
  post i w _ _ w' _ :=
    match i with
    | .acquire _ => (w.csr ()).sstatus.sie = false → Nested w w'
    | .spin _ => Nested w w → Nested w w'
    | .release _ => Nested w w → Still w w'
    | _ => True
  inv_next _ := trivial
  next_self _ := rfl
  away_refl := trivial
  away_trans _ _ := trivial
  allowed_self := trivial

theorem lenient_idling : Lenient (idling img quiet) where
  access _ _ := ⟨trivial, trivial⟩
  pre {_ i _ _} hi := by
    cases i with
    | act | choose | panic | diverge | swtch | acquire | release | spin | myproc => exact hi
    | waitLoop | scheduling | initLoop | client | enter | atEntry | wfi => cases hi
  post _ _ := trivial

/-! ## The locks -/

/-- With interrupts off an access takes place at once. -/
theorem safe_still {f : Unit → World Unit → β × World Unit} {rest : β → Code Unit α}
    {Q : α → World Unit → Unit → Prop} (hsie : (w.csr ()).sstatus.sie = false)
    (hrest : (idling img quiet).safe () (rest (f () w).1) Q (f () w).2 g) :
    (idling img quiet).safe () (act f >>= rest) Q w g :=
  (Watch.safe_bind ..).mpr (Watch.safe_atomic rfl (not_trap hsie) trivial hrest)

theorem safe_last {f : Unit → World Unit → β × World Unit}
    {Q : β → World Unit → Unit → Prop} (hsie : (w.csr ()).sstatus.sie = false)
    (hQ : Q (f () w).1 (f () w).2 g) : (idling img quiet).safe () (act f) Q w g :=
  Watch.safe_atomic rfl (not_trap hsie) trivial hQ

/-- A panic that is not reached, or after which nothing comes. -/
theorem safe_check {c : Prop} [Decidable c] {message : String} {rest : Unit → Code Unit α}
    {Q : α → World Unit → Unit → Prop}
    (hrest : ¬ c → (idling img quiet).safe () (rest ()) Q w g) :
    (idling img quiet).safe () (if c then panic message >>= rest else rest ()) Q w g := by
  split
  · exact fun _ _ _ _ => trivial
  · next hc => exact hrest hc

theorem safe_pushOff (hsie : (w.csr ()).sstatus.sie = false) :
    (idling img quiet).safe () pushOff (fun _ w' _ => Nested w w') w g := by
  refine safe_still hsie (safe_still hsie ?_)
  have hoff : ((w.setSie () false).csr ()).sstatus.sie = false := by
    simp [World.setSie, World.setCsr]
  refine safe_still hoff ?_
  split
  · next hzero =>
    refine safe_still hoff (safe_last hoff ⟨⟨rfl, hoff⟩, fun _ => ?_⟩)
    simpa [World.setCpu] using hsie
  · next hne =>
    refine safe_last hoff ⟨⟨rfl, hoff⟩, fun hone => absurd ?_ hne⟩
    have hnoff : (w.cpus ()).noff + 1 = 1 := by
      simpa [World.setCpu, World.setSie, World.setCsr] using hone
    change (w.cpus ()).noff = 0
    omega

theorem safe_popOff {w₀ : World Unit} (nested : Nested w₀ w) :
    (idling img quiet).safe () popOff (fun _ w' _ => Still w₀ w') w g := by
  refine safe_still nested.sie (safe_check fun _ => ?_)
  refine safe_still nested.sie (safe_check fun _ => ?_)
  refine safe_still nested.sie (safe_still nested.sie ?_)
  split
  · next hzero =>
    have hone : (w.cpus ()).noff = 1 := by
      have hnoff : (w.cpus ()).noff - 1 = 0 := by simpa [World.setCpu] using hzero
      omega
    refine safe_still nested.sie ?_
    have hintena : ((w.setCpu () fun c => { c with noff := c.noff - 1 }).cpus ()).intena =
        false := by simpa [World.setCpu] using nested.intena hone
    rw [if_neg (by simp [hintena])]
    exact ⟨nested.kernel, nested.sie⟩
  · exact ⟨nested.kernel, nested.sie⟩

theorem safe_holding {Q : Bool → World Unit → Unit → Prop} (hsie : (w.csr ()).sstatus.sie = false)
    (hQ : ∀ answer, Q answer w g) : (idling img quiet).safe () (holding lk) Q w g := by
  refine safe_still hsie ?_
  split
  · exact safe_still hsie (safe_still hsie (hQ _))
  · exact hQ _

theorem safe_acquireBody (hsie : (w.csr ()).sstatus.sie = false) :
    (idling img quiet).safe () (acquireBody lk) (fun _ w' _ => Nested w w') w g := by
  refine Watch.safe_seq trivial (safe_pushOff hsie) fun _ w₁ g₁ _ nested₁ => ?_
  refine Watch.safe_seq (R := fun _ w' _ => w' = w₁) trivial
    (safe_holding nested₁.sie fun _ => rfl) fun answer w₂ g₂ _ hw₂ => ?_
  subst hw₂
  refine safe_check fun _ => ?_
  refine (Watch.safe_bind ..).mpr (Watch.safe_call rfl (not_trap nested₁.sie) trivial
    fun _ w₃ g₃ _ hpost => ?_)
  have nested₃ := nested₁.trans (hpost nested₁.self)
  have locked := nested₃.setLock lk fun l => { l with cpu := some () }
  exact safe_last nested₃.sie locked

theorem safe_spinBody (nested : Nested w w) :
    (idling img quiet).safe () (spinBody lk) (fun _ w' _ => Nested w w') w g := by
  have again : ∀ (set : Bool) w₁, Nested w w₁ → (idling img quiet).safe ()
      (if set then .perform (.spin lk) else pure () : Code Unit Unit)
      (fun _ w' _ => Nested w w') w₁ g := by
    intro set w₁ nested₁
    cases set with
    | false => exact nested₁
    | true =>
        refine Watch.safe_call rfl (not_trap nested₁.sie) trivial fun _ w₂ g₂ _ hpost => ?_
        exact nested₁.trans (hpost nested₁.self)
  refine safe_still nested.sie (again _ _ ?_)
  cases (w.lock lk).locked with
  | some _ => exact nested
  | none =>
      have taken := nested.setLock lk fun l => { l with locked := some () }
      exact taken

theorem safe_releaseBody (nested : Nested w w) :
    (idling img quiet).safe () (releaseBody lk) (fun _ w' _ => Still w w') w g := by
  refine Watch.safe_seq (R := fun _ w' _ => w' = w) trivial
    (safe_holding nested.sie fun _ => rfl) fun answer w₂ g₂ _ hw₂ => ?_
  subst hw₂
  refine safe_check fun _ => ?_
  refine safe_still nested.sie (safe_still nested.sie ?_)
  have cleared := nested.setLock lk fun l => { l with cpu := none }
  have given := cleared.setLock lk fun l => { l with locked := none }
  exact safe_popOff given

/-! ## The pass over the table -/

/-- After a process has run, nothing is claimed of the rest of the pass. -/
theorem safe_found (ps : List Slot) :
    (idling img quiet).safe () (schedScan ps true) (fun found _ _ => found = true) w g := by
  induction ps generalizing w g with
  | nil => rfl
  | cons p ps ih =>
      refine lenient_idling.seq (.acquire _) trivial fun _ w₁ g₁ _ _ => ?_
      refine lenient_idling.seq (.readProc ..) trivial fun state w₂ g₂ _ _ => ?_
      split
      · refine (Watch.safe_bind ..).mpr fun w₃ g₃ _ _ => ⟨trivial, ?_⟩
        refine lenient_idling.seq (.swtchToProc p) trivial fun _ w₄ g₄ _ _ => ?_
        refine lenient_idling.seq (.still fun _ _ => rfl) trivial fun _ w₅ g₅ _ _ => ?_
        exact lenient_idling.seq (.release _) trivial fun _ _ _ _ _ => ih
      · exact lenient_idling.seq (.release _) trivial fun _ _ _ _ _ => ih

theorem safe_pass (ps : List Slot) (hsie : (w.csr ()).sstatus.sie = false)
    (hpassed : ∀ p, p ∉ ps → (w.kernel.proc p).state ≠ .runnable) :
    (idling img quiet).safe () (schedScan ps false)
      (fun found w' _ => found = false → (w'.csr ()).sstatus.sie = false ∧
        ∀ p, (w'.kernel.proc p).state ≠ .runnable) w g := by
  induction ps generalizing w g with
  | nil => exact fun _ => ⟨hsie, fun p => hpassed p (List.not_mem_nil)⟩
  | cons p ps ih =>
      refine (Watch.safe_bind ..).mpr (Watch.safe_call rfl (not_trap hsie) trivial
        fun _ w₁ g₁ _ hacquired => ?_)
      have nested : Nested w w₁ := hacquired hsie
      refine safe_still nested.sie ?_
      change (idling img quiet).safe () (if (w₁.kernel.proc p).state = .runnable then _ else _) _ _ _
      split
      · refine (Watch.safe_bind ..).mpr fun w₃ g₃ _ _ => ⟨trivial, ?_⟩
        refine lenient_idling.seq (.swtchToProc p) trivial fun _ w₄ g₄ _ _ => ?_
        refine lenient_idling.seq (.still fun _ _ => rfl) trivial fun _ w₅ g₅ _ _ => ?_
        refine lenient_idling.seq (.release _) trivial fun _ w₆ g₆ _ _ => ?_
        refine Watch.safe_mono trivial (fun found _ _ _ hfound hfalse => ?_) (safe_found ps)
        rw [hfound] at hfalse
        cases hfalse
      · next hnot =>
        refine (Watch.safe_bind ..).mpr (Watch.safe_call rfl (not_trap nested.sie) trivial
          fun _ w₂ g₂ _ hreleased => ?_)
        have still : Still w w₂ := nested.still (hreleased nested.self)
        refine ih still.sie fun q hq => ?_
        rw [still.kernel]
        by_cases heq : q = p
        · rw [heq, ← nested.kernel]
          exact hnot
        · exact hpassed q (List.not_mem_cons_of_ne_of_not_mem heq hq)

theorem safe_idleBody {Q : Empty → World Unit → Unit → Prop} :
    (idling img quiet).safe () schedulingBody Q w g := by
  have again : ∀ w' g', (idling img quiet).safe () (.perform .scheduling) Q w' g' :=
    fun _ _ _ _ _ _ => ⟨trivial, fun never => never.elim⟩
  refine lenient_idling.seq (.still fun _ _ => rfl) trivial fun _ w₁ g₁ _ _ => ?_
  refine (Watch.safe_bind ..).mpr fun w₂ g₂ _ _ => ⟨trivial, ?_⟩
  have hoff : ((w₂.setSie () false).csr ()).sstatus.sie = false := by
    simp [World.setSie, World.setCsr]
  refine Watch.safe_seq trivial (safe_pass slots hoff fun p hp => absurd (List.mem_finRange p) hp)
    fun found w₃ g₃ _ hpass => ?_
  cases found with
  | true => exact again w₃ g₃
  | false =>
      obtain ⟨hsie, hnone⟩ := hpass rfl
      exact (Watch.safe_bind ..).mpr (Watch.safe_call rfl (not_trap hsie) hnone
        fun _ w₄ g₄ _ _ => again w₄ g₄)

theorem sound_idling : (idling img quiet).Sound () where
  call {_ i body w _} hbody _ hpre := by
    cases i with
    | act | choose | panic | swtch => cases hbody
    | diverge | myproc =>
        refine Watch.safe_mono trivial (fun _ _ _ _ _ => trivial)
          (lenient_idling.safe (Plain.called ?_ hbody) trivial)
        trivial
    | acquire lk =>
        cases hbody
        by_cases hsie : (w.csr ()).sstatus.sie = false
        · exact Watch.safe_mono trivial (fun _ _ _ _ nested _ => nested) (safe_acquireBody hsie)
        · exact Watch.safe_mono trivial (fun _ _ _ _ _ hoff => absurd hoff hsie)
            (lenient_idling.safe (.acquireBody lk) trivial)
    | release lk =>
        cases hbody
        by_cases nested : Nested w w
        · exact Watch.safe_mono trivial (fun _ _ _ _ still _ => still) (safe_releaseBody nested)
        · exact Watch.safe_mono trivial (fun _ _ _ _ _ hnested => absurd hnested nested)
            (lenient_idling.safe (.releaseBody lk) trivial)
    | spin lk =>
        cases hbody
        by_cases nested : Nested w w
        · exact Watch.safe_mono trivial (fun _ _ _ _ still _ => still) (safe_spinBody nested)
        · exact Watch.safe_mono trivial (fun _ _ _ _ _ hnested => absurd hnested nested)
            (lenient_idling.safe (.spinBody lk) trivial)
    | scheduling =>
        cases hbody
        exact safe_idleBody
    | wfi =>
        cases hbody
        exact trivial
    | waitLoop | initLoop | client | enter | atEntry => cases hpre
  handler _ _ := ⟨trivial, lenient_idling.safe (.kernelvec img) trivial⟩
  started _ := rfl

theorem idles_boot (S : Setting Unit) (entries : List Word) (memory : Memory) :
    (idling S.img S.quiet).Watches () (boot S.img () entries memory) () where
  inv := trivial
  running _ := by
    refine lenient_idling.seq (.userinit S.img) trivial fun _ w₁ g₁ _ _ => ?_
    have creates : Plain (Program.forEach entries fun entrypoint => do
        let _ ← createProcess S.img entrypoint : Code Unit Unit) :=
      .forEach fun _ => .bind (.createProcess ..) fun _ => .pure _
    refine lenient_idling.seq creates trivial fun _ w₂ g₂ _ _ => ?_
    refine lenient_idling.seq (.still fun _ _ => rfl) trivial fun _ w₃ g₃ _ _ => ?_
    exact fun _ _ _ _ => ⟨trivial, fun never => never.elim⟩
  suspended hne := absurd rfl hne

/-! ## Runs -/

/-- A hart about to wait for an interrupt has interrupts off and no lock, and there is
nobody to run. -/
structure IdlesRightly (m : Config (Instr Unit) Unit (Ctx Unit) (World Unit)) : Prop where
  sie : ∀ {next}, m.code () = .step .wfi next → (m.world.csr ()).sstatus.sie = false
  unlocked : ∀ {next}, m.code () = .step .wfi next → ∀ lk, (m.world.lock lk).locked = none
  nobody : ∀ {next}, m.code () = .step .wfi next → ∀ p,
    (m.world.kernel.proc p).state ≠ .runnable

variable {S : Setting Unit} {entries : List Word} {memory : Memory}
  {m : Config (Instr Unit) Unit (Ctx Unit) (World Unit)}

theorem wfi_finds_nobody (reaches : Reaches S entries memory m) : IdlesRightly m := by
  obtain ⟨good, g, watches⟩ := Watch.Watches.reachable verified (fun _ => rfl) sound_idling
    (fun _ _ _ => ⟨trivial, trivial⟩) (good_boot S entries memory)
    (idles_boot S entries memory) reaches
  have hon : ∀ {next}, m.code () = .step .wfi next →
      On (.ofCpu () [] false none) () m.world := by
    intro next hcode
    obtain ⟨l, on, h, rfl⟩ := good.called hcode rfl
    exact on
  refine ⟨fun hcode => (hon hcode).unmasked rfl, fun hcode lk => ?_, fun hcode => ?_⟩
  · refine Option.eq_none_iff_forall_ne_some.mpr fun u hlocked => ?_
    have hheld := ((hon hcode).held lk).mp hlocked
    simp [Local.held, Local.ofCpu] at hheld
  · exact watches.called (hon hcode).ctx hcode rfl

/-- `initproc` waits for the child it has adopted, which sleeps, and the others are gone. -/
theorem wfi_finds_nobody_sample : ∃ memory m next,
    Reaches sampleSetting [sampleEntry, sampleEntry] memory m ∧ m.code () = .step .wfi next ∧
    m.world.kernel.state slot₀ = .sleeping ∧ m.world.kernel.state slot₃ = .sleeping ∧
    (∀ p, (m.world.kernel.proc p).state ≠ .runnable) ∧ IdlesRightly m := by
  obtain ⟨memory, w, saved, next, hreach, hslot₀, hslot₃⟩ := leads_wfi false
  have reaches : Reaches sampleSetting [sampleEntry, sampleEntry] memory
    (lone w (.step .wfi next) saved) := hreach
  exact ⟨memory, _, next, reaches, rfl, hslot₀, hslot₃, (wfi_finds_nobody reaches).nobody rfl,
    wfi_finds_nobody reaches⟩

end Xv6Kernel.Process
