import Xv6Kernel.Process.Runs

/-!
# Exit statuses

The history of a run tells which process created, exited and reaped which.  While
`nextpid` has not overflowed a pid names one process, so the history can be read by
pids alone.
-/

namespace Xv6Kernel.Process

open Xv6Kernel.Foundation Xv6Kernel.Mm

variable {init : Option Nat} {log : List Event} {event : Event} {s t born : Nat}

theorem pidOf_inj (hs : s ≤ born) (ht : t ≤ born) (hborn : born < 2 ^ 31)
    (heq : pidOf s = pidOf t) : s = t := by
  have hnat := congrArg BitVec.toNat heq
  simp only [pidOf, BitVec.toNat_ofNat] at hnat
  omega

/-! ## Events and the ones before them -/

theorem LogOk.event_ok {later earlier : List Event}
    (ok : LogOk init (later ++ event :: earlier)) : EventOk init earlier event := by
  induction later with
  | nil => exact ok.1
  | cons first later ih => exact ih ok.2

theorem LogOk.of_mem (ok : LogOk init log) (hevent : event ∈ log) :
    ∃ earlier, (∀ e ∈ earlier, e ∈ log) ∧ EventOk init earlier event := by
  obtain ⟨later, earlier, rfl⟩ := List.append_of_mem hevent
  exact ⟨earlier, fun e he => List.mem_append_right _ (List.mem_cons_of_mem _ he),
    ok.event_ok⟩

theorem HasForked.mono {earlier : List Event} (hforked : HasForked earlier s)
    (hsub : ∀ e ∈ earlier, e ∈ log) : HasForked log s :=
  hforked.imp fun _ he => hsub _ he

theorem Inherits.hasForked {who : Nat} (inherits : Inherits init log who s) :
    HasForked log s := by
  obtain ⟨creator, hforked, -⟩ := inherits
  exact ⟨_, hforked⟩

/-- Every process with an exit, a return of `create_process` or one of `wait_process`
to its name has been created and has that pid. -/
theorem LogOk.exited (ok : LogOk init log) {pid status : CInt}
    (hexited : .exited s pid status ∈ log) : pid = pidOf s ∧ HasForked log s := by
  obtain ⟨earlier, hsub, hpid, hforked, -⟩ := ok.of_mem hexited
  exact ⟨hpid, hforked.mono hsub⟩

theorem LogOk.created (ok : LogOk init log) {creator : Option Nat} {pid : CInt}
    (hcreated : .created creator s pid ∈ log) : pid = pidOf s ∧ .forked creator s ∈ log := by
  obtain ⟨earlier, hsub, hpid, hforked⟩ := ok.of_mem hcreated
  exact ⟨hpid, hsub _ hforked⟩

theorem LogOk.waited (ok : LogOk init log) {who : Nat} {pid : CInt} {stored : Option CInt}
    (hwaited : .waited who s pid stored ∈ log) : pid = pidOf s ∧ HasForked log s := by
  obtain ⟨earlier, hsub, hpid, -, inherits, -⟩ := ok.of_mem hwaited
  exact ⟨hpid, inherits.hasForked.mono hsub⟩

/-! ## Deliveries -/

/-- What the history says of `exit_process`, `wait_process` and `create_process`;
`init` is the serial number of `initproc`. -/
structure Delivers (init : Option Nat) (log : List Event) : Prop where
  /-- A return of the pid `k` from `wait_process` belongs to an exit of the process `k`
  before it, whose status it stores; the caller created the process, or it is `initproc`
  and the creator has exited; and no earlier call has returned `k`. -/
  waited : ∀ {later earlier who child k stored},
    log = later ++ .waited who child k stored :: earlier →
      (∃ status, .exited child k status ∈ earlier ∧
        (stored = none ∨ stored = some status)) ∧
      Inherits init earlier who child ∧
      ∀ who' child' stored', .waited who' child' k stored' ∉ earlier
  /-- A pid is returned at most once, and a process exits at most once. -/
  exited : ∀ {later earlier who k status}, log = later ++ .exited who k status :: earlier →
    ∀ who' status', .exited who' k status' ∉ earlier
  /-- The pid with which a process exits is the one that `create_process` returned. -/
  created : ∀ {creator child k who k' status}, .created creator child k ∈ log →
    .exited who k' status ∈ log → (who = child ↔ k' = k)
  /-- The children of a caller to whom `wait_process` returned -1. -/
  childless : ∀ {who children}, .childless who children ∈ log → children = []

theorem LogOk.delivers (ok : LogOk init log) (hbound : ∀ {s}, HasForked log s → s ≤ born)
    (hborn : born < 2 ^ 31) : Delivers init log where
  waited {later earlier who child k stored} heq := by
    subst heq
    obtain ⟨hpid, hfirst, inherits, status, hexited, hstored⟩ := ok.event_ok
    have hsub : ∀ e ∈ earlier, e ∈ later ++ .waited who child k stored :: earlier :=
      fun e he => List.mem_append_right _ (List.mem_cons_of_mem _ he)
    refine ⟨⟨status, hexited, hstored⟩, inherits, fun who' child' stored' hagain => ?_⟩
    obtain ⟨hpid', hforked'⟩ := ok.waited (hsub _ hagain)
    have hsame := pidOf_inj (hbound hforked') (hbound (inherits.hasForked.mono hsub)) hborn
      (hpid'.symm.trans hpid)
    subst hsame
    exact hfirst ⟨who', k, stored', hagain⟩
  exited {later earlier who k status} heq := by
    subst heq
    obtain ⟨hpid, hforked, hfirst⟩ := ok.event_ok
    have hsub : ∀ e ∈ earlier, e ∈ later ++ .exited who k status :: earlier :=
      fun e he => List.mem_append_right _ (List.mem_cons_of_mem _ he)
    intro who' status' hagain
    obtain ⟨hpid', hforked'⟩ := ok.exited (hsub _ hagain)
    have hsame := pidOf_inj (hbound hforked') (hbound (hforked.mono hsub)) hborn
      (hpid'.symm.trans hpid)
    subst hsame
    exact hfirst ⟨k, status', hagain⟩
  created {creator child k who k' status} hcreated hexited := by
    obtain ⟨hpid, hforked⟩ := ok.created hcreated
    obtain ⟨hpid', hforked'⟩ := ok.exited hexited
    constructor
    · rintro rfl
      exact hpid'.trans hpid.symm
    · rintro rfl
      exact pidOf_inj (hbound hforked') (hbound ⟨_, hforked⟩) hborn (hpid'.symm.trans hpid)
  childless hchildless := by
    obtain ⟨earlier, -, hnone⟩ := ok.of_mem hchildless
    exact hnone

end Xv6Kernel.Process
