import Xv6Kernel.Process.Handling

/-!
# Entry functions

Whatever an entry function does next, it stays outside the functions of the kernel,
with the locks it took itself.  With this every instruction that has a body meets its
contract.
-/

namespace Xv6Kernel.Process

open Xv6Kernel.Foundation Xv6Kernel.Mm

variable {H : Type} {S : Setting H} {l : Local H} {h : H} {w : World H} {p : Slot}
  {k : Kernel} {sie : Bool} {held : List Lock} {lk : Lock}

/-- A process outside the kernel with the locks it took. -/
structure Client (H : Type) (p : Slot) (held : List Lock) (sie : Bool) (k : Kernel) :
    Prop where
  home : AtHome p sie k
  acquired : ∀ lk ∈ held, Acquired (.ofProc p held sie : Local H) lk k

theorem stable_client : Stable S (.ofProc p held sie) (Client H p held sie) := by
  intro k k' frame client
  refine ⟨stable_atHome rfl _ _ frame client.home, fun lk hlk => ?_⟩
  have hheld : Local.held (.ofProc p held sie : Local H) lk := .inl hlk
  exact Acquired.stable hheld _ _ frame (client.acquired lk hlk)

theorem Client.nil (home : AtHome p sie k) : Client H p [] sie k :=
  ⟨home, fun _ hlk => nomatch hlk⟩

theorem Client.cons (client : Client H p held sie k)
    (acquired : Acquired (.ofProc p held sie : Local H) lk k) :
    Client H p (lk :: held) sie k where
  home := client.home
  acquired lk' hlk := by
    rcases List.mem_cons.mp hlk with rfl | hmem
    · exact ⟨acquired.calm, acquired.running⟩
    · exact ⟨(client.acquired lk' hmem).calm, (client.acquired lk' hmem).running⟩

theorem Client.erase (client : Client H p held sie k) (lk : Lock) :
    Client H p (held.erase lk) sie k where
  home := client.home
  acquired lk' hlk :=
    ⟨(client.acquired lk' (List.mem_of_mem_erase hlk)).calm,
      (client.acquired lk' (List.mem_of_mem_erase hlk)).running⟩

theorem Client.releasable (client : Client H p held sie w.kernel)
    (hlk : lk ∈ held) : Releasable (.ofProc p held sie : Local H) lk w.kernel where
  running := (client.acquired lk hlk).running
  calm := (client.acquired lk hlk).calm
  armed q hq harmed := by
    cases hq
    rw [client.home.phase] at harmed
    cases harmed

theorem AtHome.awake (home : AtHome p sie k) : Awake p k :=
  ⟨home.alive, by rw [home.phase]; nofun⟩

theorem AtHome.booted (home : AtHome p sie k) {img : Image} (data : Data img k) :
    k.booted = true := by
  by_contra hb
  exact data.tree.unbooted (Bool.eq_false_of_not_eq_true hb) p home.alive.live

theorem AtHome.setState (home : AtHome p sie k) {state : ProcState} (chan : Option Chan)
    (halive : state.Alive) : AtHome p sie (k.setProc p (Proc.setState state chan)) where
  alive := by simpa [Proc.setState] using halive
  phase := home.phase
  window := home.window
  sie := home.sie

/-! ## intr_on and intr_off -/

section Interrupts

variable {k' : Kernel}

theorem Change.ownSie [DecidableEq H] (change : Change S l w k') (on : On l h w)
    (b : Bool) : Own S h w { w.setSie h b with kernel := k' } :=
  { change.own on with csr := fun _ hne => Function.update_of_ne hne _ _ }

end Interrupts

variable [DecidableEq H]

theorem userIntr_spec {g : Shadow → Shadow} {b : Bool}
    (hserial : ∀ s, (g s).serial = s.serial) (hcreator : ∀ s, (g s).creator = s.creator)
    (hentry : ∀ s, (g s).entry = s.entry) (hphase : ∀ s, (g s).phase = s.phase)
    (hwindow : ∀ s, (g s).window = s.window)
    (hsie : ∀ s, (g s).calledOff = false → b = ((g s).startedOn || (g s).calledOn)) :
    Triple S (.ofProc p [] sie) (AtHome p sie)
      (act fun h w => ((), (w.setSie h b).running h g)) (fun _ => .ofProc p [] b)
      fun _ => AtHome p b := by
  refine .act (stable_atHome rfl) fun h w inv on home => ?_
  have bare : (Local.ofProc p [] sie : Local H).Bare := ⟨rfl, rfl, rfl, rfl⟩
  have hworld : (w.setSie h b).running h g =
      { w.setSie h b with kernel := w.kernel.setShadow p g } := by
    have hcur : (w.setSie h b).cur h = .proc p := on.ctx
    rw [World.running, hcur]
    rfl
  have data : Data S.img (w.kernel.setShadow p g) :=
    inv.data.note (hserial _) (hcreator _) (hentry _) (hphase _)
  have change := change_ownShadow inv on rfl data (hserial _) (hcreator _) (hentry _)
    fun harmed => .inl ((hphase _).symm.trans harmed)
  have inv' : Inv S.img { w.setSie h b with kernel := w.kernel.setShadow p g } :=
    (change.inv inv).setCsr (fun c => { c with sstatus := { c.sstatus with sie := b } })
      fun _ => (on.write _).quiet bare
  rw [hworld]
  refine ⟨(change.ownSie on b).guarantee inv inv', (on.setSie bare b).write _,
    home.alive, ?_, ?_, fun hoff => ?_⟩
  · rw [Kernel.setShadow_phase, Function.update_self, hphase]
    exact home.phase
  · rw [Kernel.setShadow_shadow_self, hwindow]
    exact home.window
  · rw [Kernel.setShadow_shadow_self] at hoff ⊢
    exact hsie _ hoff

/-! ## The actions -/

/-- What an entry function is left with. -/
def Goes (p : Slot) (held : List Lock) (h : H) (w : World H) : Prop :=
  ∃ sie, On (.ofProc p held sie) h w ∧ Client H p held sie w.kernel

/-- An action that a process takes with no lock held. -/
theorem Triple.unlocked {α : Type} {program : Code H α} {m : Bool}
    (triple : Triple S (.ofProc p [] sie) (AtHome p sie) program
      (fun _ => .ofProc p [] m) fun _ => AtHome p m) (inv : Inv S.img w)
    (on : On (.ofProc p held sie) h w) (client : Client H p held sie w.kernel) :
    (logic S).wp (if held = [] then do
      let _ ← program
      return held
    else return held) (Goes p) h w := by
  split
  · next hnil =>
    subst hnil
    refine ((logic S).wp_bind ..).mpr (triple.wp inv on client.home
      fun _ h' w' inv' on' home => ?_)
    exact ⟨m, on', .nil home⟩
  · exact ⟨sie, on, client⟩

theorem takeAction_spec (action : Action) (inv : Inv S.img w)
    (on : On (.ofProc p held sie) h w) (client : Client H p held sie w.kernel) :
    (logic S).wp (takeAction S.img held action) (Goes p) h w := by
  have hhome : Stable S (.ofProc p [] sie : Local H) (AtHome p sie) := stable_atHome rfl
  have bare : (Local.ofProc p [] sie : Local H).Bare := ⟨rfl, rfl, rfl, rfl⟩
  have here : Goes p held h w := ⟨sie, on, client⟩
  cases action with
  | compute => exact here
  | acquire lk =>
    rw [takeAction]
    split
    · exact here
    · next hlk =>
      refine ((logic S).wp_bind ..).mpr ((Triple.acquire stable_client rfl rfl hlk).wp inv on
        client fun _ h' w' inv' on' hpost => ?_)
      exact ⟨sie, on', hpost.1.cons hpost.2⟩
  | release lk =>
    rw [takeAction]
    split
    · next hlk =>
      refine ((logic S).wp_bind ..).mpr ((Triple.release (G := Client H p (held.erase lk) sie)
        stable_client stable_client (fun _ client => client.erase lk) rfl rfl hlk rfl
        fun h w _ _ client => client.releasable hlk).wp inv on client
          fun _ h' w' inv' on' hpost => ?_)
      exact ⟨sie, on', hpost⟩
    · exact here
  | wakeup chan =>
    rw [takeAction]
    split
    · exact here
    · next hnone =>
      have hlocks : ∀ q, .proc q ∉ (Local.ofProc p held sie : Local H).locks :=
        fun q hq => hnone (List.any_eq_true.mpr ⟨.proc q, hq, rfl⟩)
      refine ((logic S).wp_bind ..).mpr ((Triple.wakeup stable_client rfl rfl rfl hlocks).wp
        inv on client fun _ h' w' inv' on' hpost => ?_)
      exact ⟨sie, on', hpost.1⟩
  | sleep chan lk =>
    rw [takeAction]
    split
    · next hlk =>
      subst hlk
      have sleeps : Triple S (.ofProc p [lk] sie) (fun k => AtHome p sie k ∧
          MaySleep p chan lk k ∧ Acquired (.ofProc p [lk] sie : Local H) lk k)
          (Process.sleep S.img chan (some lk)) (fun _ => .ofProc p [lk] sie) fun _ k =>
            AtHome p sie k ∧ Acquired (.ofProc p [lk] sie : Local H) lk k ∧ Awake p k :=
        .sleep hhome (fun _ _ chan home halive => home.setState chan halive)
          fun _ home _ => home.window
      refine ((logic S).wp_bind ..).mpr (sleeps.wp inv on ⟨client.home,
        ⟨client.home.alive, .inl client.home.phase⟩, client.acquired lk (by simp)⟩
          fun _ h' w' inv' on' hpost => ?_)
      refine ⟨sie, on', hpost.1, fun lk' hlk => ?_⟩
      rw [List.mem_singleton.mp hlk]
      exact hpost.2.1
    · exact here
  | createProcess entrypoint =>
    have hawake : ∀ k, AtHome p sie k → ∀ q, (.proc p : Ctx H) = .proc q → Awake q k :=
      fun k home q hq => by
        cases hq
        exact home.awake
    exact Triple.unlocked ((Triple.createProcess bare hhome hawake
      (fun k data home => home.booted data) fun _ _ => List.nil_suffix).mono (fun _ => id)
      fun _ _ => And.left) inv on client
  | exitProcess status =>
    rw [takeAction]
    split
    · next hnil =>
      subst hnil
      have exits : Triple S (.ofProc p [] sie) (AtHome p sie)
          (Process.exitProcess S.img status : Code H Empty) (fun never => never.elim)
          fun never _ => never.elim :=
        .exitProcess hhome fun _ home => ⟨home.alive, home.phase, home.window⟩
      exact ((logic S).wp_bind ..).mpr (exits.wp inv on client.home fun never => never.elim)
    · exact here
  | waitProcess status => exact Triple.unlocked Triple.waitProcess inv on client
  | yield => exact Triple.unlocked (.yield hhome fun _ home _ => home.window) inv on client
  | printf text =>
    exact Triple.unlocked (.printf hhome rfl rfl (by simp [Local.ofProc]) rfl text) inv on
      client
  | intrOn =>
    exact Triple.unlocked (userIntr_spec (fun _ => rfl) (fun _ => rfl) (fun _ => rfl)
      (fun _ => rfl) (fun _ => rfl) fun _ _ => by simp) inv on client
  | intrOff =>
    exact Triple.unlocked (userIntr_spec (fun _ => rfl) (fun _ => rfl) (fun _ => rfl)
      (fun _ => rfl) (fun _ => rfl) (by simp)) inv on client

/-! ## The bodies -/

theorem Triple.atEntry :
    Triple S (.ofProc p [] sie) (AtHome p sie) (Program.perform .atEntry : Code H Unit)
      (fun _ => .ofProc p [] sie) fun _ => AtHome p sie :=
  .call rfl (stable_atHome rfl) (fun _ _ _ _ home => ⟨p, sie, rfl, home⟩)
    fun _ _ _ _ _ home hpost =>
      ⟨hpost.1, stable_atHome (l := .ofProc p [] sie) rfl _ _ hpost.2 home⟩

theorem Triple.client :
    Triple S (.ofProc p held sie) (Client H p held sie)
      (Program.perform (.client held) : Code H Empty) (fun never => never.elim)
      fun never _ => never.elim :=
  .call rfl stable_client
    (fun _ _ _ _ client => ⟨p, sie, rfl, client.home, client.acquired⟩)
    fun _ never => never.elim

theorem Triple.initLoop :
    Triple S (.ofProc p [] sie) (AtHome p sie) (Program.perform .initLoop : Code H Empty)
      (fun never => never.elim) fun never _ => never.elim :=
  .call rfl (stable_atHome rfl) (fun _ _ _ _ home => ⟨p, sie, rfl, home⟩)
    fun _ never => never.elim

theorem Triple.clientBody :
    Triple S (.ofProc p held sie) (Client H p held sie) (Process.clientBody S.img held)
      (fun never => never.elim) fun never _ => never.elim := by
  have rest : Triple S (.ofProc p held sie) (Client H p held sie) (do
      let action ← Process.choose Action
      let held' ← takeAction S.img held action
      Program.perform (.client held') : Code H Empty) (fun never => never.elim)
      fun never _ => never.elim := by
    refine (Triple.choose stable_client).bind fun action => fun h w inv on client => ?_
    refine ((logic S).wp_bind ..).mpr (Logic.wp_mono inv (fun held' h' w' inv' goes => ?_)
      (takeAction_spec action inv on client))
    obtain ⟨sie', on', client'⟩ := goes
    exact Triple.client.wp inv' on' client' fun never => never.elim
  refine .ite (fun hnil => ?_) fun _ => rest
  subst hnil
  exact ((Triple.atEntry.pre fun _ client => client.home).mono (fun _ => id)
    fun _ _ home => .nil home).bind fun _ => rest

theorem Triple.initLoopBody :
    Triple S (.ofProc p [] sie) (AtHome p sie) (Process.initLoopBody S.img)
      (fun never => never.elim) fun never _ => never.elim := by
  have hhome : Stable S (.ofProc p [] sie : Local H) (AtHome p sie) := stable_atHome rfl
  refine Triple.waitProcess.bind fun answer => Triple.atEntry.bind fun _ => ?_
  refine .ite (fun _ => ?_) fun _ => ?_
  · exact (Triple.printf hhome rfl rfl (by simp [Local.ofProc]) rfl _).bind fun _ =>
      Triple.atEntry.bind fun _ => Triple.initLoop
  · exact (Triple.yield hhome fun _ home _ => home.window).bind fun _ =>
      Triple.atEntry.bind fun _ => Triple.initLoop

theorem Triple.initTask :
    Triple S (.ofProc p [] sie) (AtHome p sie) (Process.initTask : Code H Empty)
      (fun never => never.elim) fun never _ => never.elim := by
  have hhome : Stable S (.ofProc p [] sie : Local H) (AtHome p sie) := stable_atHome rfl
  exact Triple.atEntry.bind fun _ =>
    (Triple.printf hhome rfl rfl (by simp [Local.ofProc]) rfl _).bind fun _ =>
      Triple.atEntry.bind fun _ => Triple.initLoop

theorem Triple.enterBody (fn : Word) :
    Triple S (.ofProc p [] sie) (AtHome p sie) (Process.enterBody S.img fn)
      (fun _ => .ofProc p [] sie) fun _ _ => False := by
  refine .ite (fun _ => ?_) fun _ => .ite (fun _ => ?_) fun _ => .panic (by decide)
  · exact Triple.initTask.bind fun never => never.elim
  · exact (Triple.client.pre fun _ home => .nil home).bind fun never => never.elim

/-! ## Every called program -/

theorem call_spec {β : Type} {i : Instr H β} {body : Code H β}
    (hbody : (platform S.img S.quiet : Platform (Instr H) H (Ctx H) (World H)).effect i =
      .call body) (inv : Inv S.img w) (hpre : (logic S).pre i h w) :
    (logic S).wp body (fun answer h' w' => (logic S).post i h w answer h' w') h w := by
  cases i with
  | act f => cases hbody
  | choose => cases hbody
  | panic message => cases hbody
  | swtch old new regs => cases hbody
  | diverge =>
    cases hbody
    refine call_of_triple inv hpre fun l on hp h' w' env inv' => ?_
    obtain ⟨on', -, -⟩ := env_on inv on env
    exact ⟨⟨l, on', trivial⟩, fun _ _ _ _ hpost => hpost l on' trivial⟩
  | acquire lk =>
    cases hbody
    exact call_of_triple inv hpre fun l on hp => acquireBody_spec inv on hp
  | release lk =>
    cases hbody
    exact call_of_triple inv hpre fun l on hp => releaseBody_spec inv on hp
  | spin lk =>
    cases hbody
    exact call_of_triple inv hpre fun l on hp => spinBody_spec inv on hp
  | myproc =>
    cases hbody
    exact call_of_triple inv hpre fun l on hp => myprocBody_spec inv on hp
  | waitLoop r status =>
    cases hbody
    exact waitLoop_spec inv hpre
  | scheduling =>
    cases hbody
    obtain ⟨l, on, h₀, sie, rfl⟩ := hpre
    obtain rfl : h₀ = h := inv.cur_cpu on.ctx |>.symm ▸ rfl
    exact schedulingBody_spec inv on
  | initLoop =>
    cases hbody
    obtain ⟨l, on, p, sie, rfl, home⟩ := hpre
    exact Triple.initLoopBody.wp inv on home fun never => never.elim
  | client held =>
    cases hbody
    obtain ⟨l, on, p, sie, rfl, home, acquired⟩ := hpre
    exact Triple.clientBody.wp inv on ⟨home, acquired⟩ fun never => never.elim
  | enter fn =>
    cases hbody
    obtain ⟨l, on, p, sie, rfl, home, -⟩ := hpre
    exact (Triple.enterBody fn).wp inv on home fun _ _ _ _ _ never => never.elim
  | atEntry =>
    cases hbody
    exact call_of_triple inv hpre fun l on hp => ⟨on, .refl⟩
  | wfi =>
    cases hbody
    exact call_of_triple inv hpre fun l on hp => ⟨on, .refl⟩

/-- What the kernel's programs are proved to do holds of every run. -/
theorem verified : (logic S).Verified where
  call hbody inv hpre := call_spec hbody inv hpre
  handler inv htrap := handler_spec inv htrap
  fresh {c program h w} hfresh inv resume := by
    cases c with
    | cpu h₀ => cases hfresh
    | proc p =>
      change (if (w.kernel.proc p).context.ra = S.img.forkret then some forkret else none) =
        some program at hfresh
      split at hfresh
      · next hra =>
        cases hfresh
        exact forkret_spec inv hra resume
      · cases hfresh

end Xv6Kernel.Process
