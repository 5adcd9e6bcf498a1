import Xv6Kernel.Process.Overflow
import Xv6Kernel.Process.Returns

/-!
# What the calls tell

An event of the history belongs to a call if it has come to the history while the call
was under way.  What `wait_process` and `create_process` return is read off the events
of their calls, and what has happened to a process later off the ones after them.
-/

namespace Xv6Kernel.Process

open Xv6Kernel.Foundation Xv6Kernel.Mm

variable {S : Setting Unit} {w : World Unit} {p : Slot} {sie status : Bool}
  {init : Option Nat} {log : List Event} {who born : Nat} {k : Kernel}
  {answer : CInt × Option CInt} {entries : List Word} {memory : Memory}
  {m m' : Config (Instr Unit) Unit (Ctx Unit) (World Unit)}

/-! ## The history of a run grows -/

/-- Some context is not on the only hart. -/
theorem elsewhere (c : Ctx Unit) : ∃ c', c ≠ c' := by
  by_cases hc : c = .proc slot₀
  · exact ⟨.proc slot₁, by rw [hc]; decide⟩
  · exact ⟨.proc slot₀, hc⟩

theorem step_log (good : (logic S).Good m) (hstep : Step (platform S.img S.quiet) m m') :
    m.world.kernel.log <:+ m'.world.kernel.log := by
  obtain ⟨c, hc⟩ := elsewhere (m.world.cur ())
  have haway : ∀ h, m.world.cur h ≠ c := fun _ => hc
  cases hstep with
  | atomic h hcode heffect =>
    have hdoes := good.does hcode
    simp only [Logic.Does, heffect] at hdoes
    exact (hdoes.1.keep c haway).forever.log
  | call h hcode heffect | choose h answer hcode heffect => exact List.suffix_rfl
  | switch h hcode heffect =>
    have hdoes := good.does hcode
    simp only [Logic.Does, heffect] at hdoes
    exact (hdoes.1.keep c haway).forever.log
  | trap h htrap => exact ((verified.handler good.inv htrap).1.keep c haway).forever.log

theorem run_log (good : (logic S).Good m) (hrun : Reachable (platform S.img S.quiet) m m') :
    m.world.kernel.log <:+ m'.world.kernel.log := by
  induction hrun with
  | refl => exact List.suffix_rfl
  | tail hrun hstep ih => exact ih.trans (step_log (good.reachable verified hrun) hstep)

/-! ## create_process -/

/-- A process that holds no lock has not decided to sleep. -/
theorem awake_of_on (inv : Inv S.img w) (on : On (.ofProc p [] sie) () w) :
    Awake p w.kernel := by
  have hfree : ∀ lk, (w.lock lk).locked ≠ some () := fun lk hlk => by
    simpa [Local.held, Local.ofProc] using (on.held lk).mp hlk
  have hrunning : w.kernel.state p = .running :=
    (inv.cur_state on.ctx).resolve_right (hfree _)
  refine ⟨by rw [hrunning]; trivial, fun harmed => ?_⟩
  rcases inv.armed harmed with ⟨hsleeping, -⟩ | ⟨h, -, hwait | hproc⟩
  · rw [hrunning] at hsleeping
    cases hsleeping
  · exact hfree _ hwait
  · exact hfree _ hproc

theorem wlp_createProcess {entrypoint : Word} (inv : Inv S.img w)
    (on : On (.ofProc p [] sie) () w) :
    (logic S).wlp (createProcess S.img entrypoint) (fun pid _ w' =>
      Gives w.kernel.log (some (w'.kernel.serial p)) pid w'.kernel) () w := by
  have hstable : Stable S (.ofProc p [] sie : Local Unit) fun k =>
      Awake p k ∧ w.kernel.log <:+ k.log :=
    (stable_awake rfl).and fun _ _ frame hlog => hlog.trans frame.forever.log
  have creates : Triple S (.ofProc p [] sie : Local Unit)
      (fun k => Awake p k ∧ w.kernel.log <:+ k.log) (createProcess S.img entrypoint)
      (fun _ => .ofProc p [] sie) fun pid k => (Awake p k ∧ w.kernel.log <:+ k.log) ∧
        Gives w.kernel.log (some (k.serial p)) pid k :=
    Triple.createProcess ⟨rfl, rfl, rfl, rfl⟩ hstable
      (fun k hk q hq => by
        cases hq
        exact hk.1)
      (fun k data hk => Bool.not_eq_false _ ▸ fun hbooted =>
        data.tree.unbooted hbooted p hk.1.1.live)
      fun k hk => hk.2
  refine Logic.wlp_mono inv (fun pid h' w' _ hpost => ?_)
    (Logic.wlp_of_wp (creates () w inv on ⟨awake_of_on inv on, List.suffix_rfl⟩))
  exact hpost.2.2

/-! ## Answers -/

/-- What an answer of `wait_process` to the process number `who` delivers; its call was
made when the history was `log`. -/
inductive Delivered (init : Option Nat) (log : List Event) (who : Nat) (status : Bool)
    (k : Kernel) : CInt × Option CInt → Prop where
  /-- The pid is that of a process that has exited, whose creator has made the call or has
  exited too; no call has answered it before; and the exit status is stored if the pointer
  is not null. -/
  | child {later earlier : List Event} {child : Nat} {pid exit : CInt}
      (hlog : k.log =
        later ++ .waited who child pid (if status then some exit else none) :: earlier)
      (hcall : log <:+ earlier) (hpid : 0 ≤ pid.toInt)
      (hexited : .exited child pid exit ∈ earlier) (inherits : Inherits init earlier who child)
      (first : ∀ who' child' stored', .waited who' child' pid stored' ∉ earlier) :
      Delivered init log who status k (pid, if status then some exit else none)
  /-- The caller had no child. -/
  | childless (since : Since log (.childless who []) k) :
      Delivered init log who status k (-1, none)

theorem Reports.delivered (reports : Reports log who status k answer)
    (ok : LogOk init k.log) (hbound : ∀ {s}, HasForked k.log s → s ≤ born)
    (hborn : born < 2 ^ 31) : Delivered init log who status k answer := by
  have delivers := ok.delivers hbound hborn
  cases reports with
  | @child child pid stored since hstored =>
    obtain ⟨later, earlier, heq, hearlier⟩ := since
    obtain ⟨⟨exit, hexited, hsame⟩, inherits, first⟩ := delivers.waited heq
    have hwaited : .waited who child pid stored ∈ k.log := by simp [heq]
    obtain ⟨hpid, hforked⟩ := ok.waited hwaited
    have hle := hbound hforked
    have hpos : 0 ≤ pid.toInt := by
      rw [hpid, pidOf_toInt (by omega)]
      omega
    obtain rfl : stored = if status then some exit else none := by
      rcases hsame with rfl | rfl <;> simp at hstored <;> simp [← hstored]
    exact .child heq hearlier hpos hexited inherits first
  | childless since => exact .childless since

/-- What the calls made in the state `m`, and the history, tell of exit statuses. -/
structure ExitsDelivered (S : Setting Unit)
    (m : Config (Instr Unit) Unit (Ctx Unit) (World Unit)) : Prop where
  history : m.world.kernel.born < 2 ^ 31 →
    Delivers (m.world.kernel.initproc.map m.world.kernel.serial) m.world.kernel.log
  waited : ∀ {p status answer m'}, CallAnswers S p (waitProcess status) answer m m' →
    m'.world.kernel.born < 2 ^ 31 →
    Delivered (m'.world.kernel.initproc.map m'.world.kernel.serial) m.world.kernel.log
      (m'.world.kernel.serial p) status m'.world.kernel answer
  /-- `create_process` has returned the pid of the process it has created: at any time
  later, what has exited with it is that process. -/
  created : ∀ {p entrypoint pid m' m''},
    CallAnswers S p (createProcess S.img entrypoint) pid m m' →
    (m.world.cpus ()).noff = 0 → Reachable (platform S.img S.quiet) m' m'' →
    m''.world.kernel.born < 2 ^ 31 →
    ∃ child, ¬ HasForked m.world.kernel.log child ∧
      .forked (some (m'.world.kernel.serial p)) child ∈ m'.world.kernel.log ∧
      ∀ {who pid' exit}, .exited who pid' exit ∈ m''.world.kernel.log →
        (who = child ↔ pid' = pid)

theorem exit_status_delivered (reaches : Reaches S entries memory m) : ExitsDelivered S m where
  history hborn := by
    have hist := reaches.good.inv.data.hist
    exact hist.ok.delivers hist.bound hborn
  waited {p status answer m'} answers hborn := by
    obtain ⟨hcur, -, rest, hcode, -⟩ := id answers
    have inv := reaches.good.inv
    obtain ⟨l, on, hhalf⟩ := reaches.good.called hcode rfl
    have hproc : l.proc = some p := on.proc.symm.trans (inv.proc_cur hcur)
    obtain ⟨good', reports⟩ := answers.reaches (G := fun answer w' =>
      Reports m.world.kernel.log (w'.kernel.serial p) status w'.kernel answer) reaches.good
      (wlp_waitProcess inv on hhalf hproc)
    have hist := good'.inv.data.hist
    exact reports.delivered hist.ok hist.bound hborn
  created {p entrypoint pid m' m''} answers hnoff hrun hborn := by
    obtain ⟨hcur, -, rest, hcode, -⟩ := id answers
    have inv := reaches.good.inv
    obtain ⟨l, on, hhalf, -⟩ := reaches.good.called hcode rfl
    obtain ⟨good', child, since, hnew⟩ := answers.reaches (G := fun pid w' =>
      Gives m.world.kernel.log (some (w'.kernel.serial p)) pid w'.kernel) reaches.good
      (wlp_createProcess inv (on.bare_of_noff inv hhalf hcur hnoff))
    have hcreated : .created (some (m'.world.kernel.serial p)) child pid ∈ m'.world.kernel.log := by
      obtain ⟨later, earlier, heq, -⟩ := since
      simp [heq]
    have hist := (good'.reachable verified hrun).inv.data.hist
    have delivers := hist.ok.delivers hist.bound hborn
    refine ⟨child, hnew, ?_, fun {_ _ _} hexited =>
      delivers.created ((run_log good' hrun).mem hcreated) hexited⟩
    exact (good'.inv.data.hist.ok.created hcreated).2

/-- What a hart does alone is a call that returns. -/
theorem Alone.answers {α : Type} {call : Code Unit α} {value : α} {w' : World Unit}
    {rest : α → Code Unit Empty} {saved : Ctx Unit → Code Unit Empty}
    (hrun : Alone (platform S.img S.quiet) () call w (.ok (value, w')))
    (good : (logic S).Good (lone w (call >>= rest) saved)) (hcur : w.cur () = .proc p) :
    CallAnswers S p call value (lone w (call >>= rest) saved) (lone w' (rest value) saved) := by
  obtain ⟨during, hcur'⟩ := Alone.during_call verified hrun good hcur rfl
  rw [← lone_update w' (call >>= rest)]
  exact ⟨hcur, hcur', rest, rfl, during⟩

/-- The second process of `main` waits for its child, which has exited. -/
theorem exit_status_delivered_sample : ∃ memory m m' pid exit,
    Reaches sampleSetting [sampleEntry, sampleEntry] memory m ∧
    CallAnswers sampleSetting slot₂ (waitProcess true) (pid, some exit) m m' ∧
    Delivered (m'.world.kernel.initproc.map m'.world.kernel.serial) m.world.kernel.log
      (m'.world.kernel.serial slot₂) true m'.world.kernel (pid, some exit) := by
  obtain ⟨memory, w₀, k₀, saved₀, next, hreach, idles₀, home, hcpu, hsaved⟩ :=
    rounds false (le_refl 4)
  obtain ⟨w₁, k₁, hbred, idles₁, family₁, -, hra, hs0⟩ := leads_bred false saved₀ next idles₀ home
  obtain ⟨w₂, k₂, saved₂, hexited, idles₂, family₂, -, -⟩ := leads_exitedChild false saved₀ next
    idles₁ family₁ hra hs0 hcpu hsaved
  obtain ⟨w₃, k₃, hwait, idles₃, home₃⟩ := alone_childReaped false true idles₂ family₂
  have hcalled : Reachable (platform sampleImage false)
      (lone w₂ (Program.perform (.client []) >>= next) saved₂)
      (lone w₂ (waitProcess true >>= fun _ => afterAction next ()) saved₂) := by
    have hclient : Reachable (platform sampleImage false)
        (lone w₂ (Program.perform (.client []) >>= next) saved₂)
        (lone w₂ (takeAction sampleImage [] (.waitProcess true) >>= fun held =>
          Program.perform (.client held) >>= next) saved₂) := leads_client (.waitProcess true)
    simp only [takeAction, if_true, bind_assoc] at hclient
    exact hclient
  have reaches : Reaches sampleSetting [sampleEntry, sampleEntry] memory
      (lone w₂ (waitProcess true >>= fun _ => afterAction next ()) saved₂) :=
    hreach.trans (hbred.trans (hexited.trans hcalled))
  have answers := Alone.answers (S := sampleSetting) hwait reaches.good idles₂.cur
  have hborn : w₃.kernel.born < 2 ^ 31 := by
    rw [idles₃.kernel]
    have := home₃.born
    omega
  exact ⟨memory, _, _, _, _, reaches, answers, (exit_status_delivered reaches).waited answers hborn⟩

end Xv6Kernel.Process
