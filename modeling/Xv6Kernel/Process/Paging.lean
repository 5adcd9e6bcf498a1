import Xv6Kernel.Mm.Walker
import Xv6Kernel.Process.AddressSpaces

/-!
# The machine with paging on

What an access of the hart goes to under the tables of the kernel and of its processes:
at the instant `kvminithart` writes `satp`, and in every state of the runs after it.
-/

namespace Xv6Kernel.Process

open Xv6Kernel.Foundation Xv6Kernel.Mm Relation

/-- `kvminithart()`.  The hart of this model keeps no translations that `sfence_vma`
could throw away. -/
def kvminithart (m : Memory) (hart : Walker) : Walker :=
  { hart with satp := makeSatp m.kernelPagetable }

/-! ## What the kernel and its processes see -/

/-- The image, the memory behind it and the UART, each at its own address. -/
def imageView (img : Image) (access : Access) (va : Word) : Option Word :=
  if kernBase ≤ va ∧ va < img.etext then if access = .store then none else some va
  else if (img.etext ≤ va ∧ va < physTop) ∨ pgRoundDown va = uart0 then
    if access = .fetch then none else some va
  else none

/-- The stacks, once more, below the trampoline. -/
def stackView (kstack : Slot → Word) (access : Access) (va : Word) : Option Word :=
  match (List.finRange nproc).find? fun p => kstackVa p = pgRoundDown va with
  | some p => if access = .fetch then none else some (kstack p + (va &&& 0xFFF))
  | none => none

def procView (img : Image) (access : Access) (va : Word) : Option Word :=
  if pgRoundDown va = trapframeVa then
    if access = .fetch then none else some (pgSize + (va &&& 0xFFF))
  else if pgRoundDown va = trampolineVa then
    if access = .store then none else some (img.trampoline + (va &&& 0xFFF))
  else none

section Views

variable {img : Image} {kstack : Slot → Word} {hart : Walker} {access : Access} {va pa perm : Word}
  {map : PageMap}

theorem pgRoundDown_add (va : Word) : pgRoundDown va + (va &&& 0xFFF) = va := by
  apply BitVec.eq_of_toNat_eq
  have hmask : (0xFFF : Word).toNat = 2 ^ 12 - 1 := by decide
  have hlt := va.isLt
  rw [BitVec.toNat_add, pgRoundDown_toNat, BitVec.toNat_and, hmask,
    Nat.and_two_pow_sub_one_eq_mod]
  omega

theorem grants_text (hmode : hart.user = false) :
    hart.Grants access (pteR ||| pteX) ↔ access ≠ .store := by
  cases access <;>
    simp [Walker.Grants, Walker.Privileged, Walker.Permitted, hmode, pteR, pteW, pteX, pteU]

theorem grants_data (hmode : hart.user = false) :
    hart.Grants access (pteR ||| pteW) ↔ access ≠ .fetch := by
  cases access <;>
    simp [Walker.Grants, Walker.Privileged, Walker.Permitted, hmode, pteR, pteW, pteX, pteU]

theorem grants_user (hmode : hart.user = true) (hperm : perm &&& pteU = 0) :
    ¬ hart.Grants access perm := by
  rintro ⟨-, hprivileged, -⟩
  rw [Walker.Privileged, if_pos hmode] at hprivileged
  exact hprivileged hperm

theorem reach_text (hmode : hart.user = false) :
    hart.reach access va (pa, pteR ||| pteX) =
      if access = .store then none else some (pa + (va &&& 0xFFF)) := by
  rw [Walker.reach, if_congr (grants_text hmode) rfl rfl, ite_not]

theorem reach_data (hmode : hart.user = false) :
    hart.reach access va (pa, pteR ||| pteW) =
      if access = .fetch then none else some (pa + (va &&& 0xFFF)) := by
  rw [Walker.reach, if_congr (grants_data hmode) rfl rfl, ite_not]

/-- A map that ends at `MAXVA`, under the hart. -/
theorem reach_below (hhigh : ∀ va, maxVa ≤ va → map va = none) :
    (if Canonical va then (map (vaPage va)).bind (hart.reach access va) else none) =
      (map (pgRoundDown va)).bind (hart.reach access va) := by
  have hmax : maxVa.toNat = 2 ^ 38 := by decide
  have hlt := va.isLt
  have hint := BitVec.toInt_eq_toNat_cond va
  by_cases hbelow : va < maxVa
  · rw [BitVec.lt_def, hmax] at hbelow
    have hcanonical : Canonical va := by
      rw [Canonical, hint]
      split <;> omega
    have hpage : vaPage va = pgRoundDown va := by
      apply BitVec.eq_of_toNat_eq
      rw [vaPage_toNat, pgRoundDown_toNat]
      omega
    rw [if_pos hcanonical, hpage]
  · rw [BitVec.lt_def, hmax] at hbelow
    have hdown : map (pgRoundDown va) = none := by
      refine hhigh _ ?_
      rw [BitVec.le_def, hmax, pgRoundDown_toNat]
      omega
    rw [hdown]
    split
    case isTrue hcanonical =>
      rw [Canonical, hint] at hcanonical
      have hpage : map (vaPage va) = none := by
        refine hhigh _ ?_
        rw [BitVec.le_def, hmax, vaPage_toNat]
        split at hcanonical <;> omega
      rw [hpage]
    case isFalse => rfl

theorem kvminitMap_view (haligned : Aligned img.etext) (hmode : hart.user = false) :
    (kvminitMap img (pgRoundDown va)).bind (hart.reach access va) = imageView img access va := by
  have hbase := kernBase_toNat
  have htop := physTop_toNat
  have hdown := pgRoundDown_toNat va
  rw [aligned_iff] at haligned
  have hlow : kernBase ≤ pgRoundDown va ↔ kernBase ≤ va := by
    rw [BitVec.le_def, BitVec.le_def]
    omega
  have htext : pgRoundDown va < img.etext ↔ va < img.etext := by
    rw [BitVec.lt_def, BitVec.lt_def]
    omega
  have hdata : img.etext ≤ pgRoundDown va ↔ img.etext ≤ va := by
    rw [BitVec.le_def, BitVec.le_def]
    omega
  have hhigh : pgRoundDown va < physTop ↔ va < physTop := by
    rw [BitVec.lt_def, BitVec.lt_def]
    omega
  unfold kvminitMap imageView
  simp only [hlow, htext, hdata, hhigh]
  split
  · rw [Option.bind_some, reach_text hmode, pgRoundDown_add]
  · split
    case isTrue hin =>
      have hcase : (img.etext ≤ va ∧ va < physTop) ∨ pgRoundDown va = uart0 := .inl hin
      rw [Option.bind_some, reach_data hmode, pgRoundDown_add, if_pos hcase]
    case isFalse hout =>
      split
      case isTrue huart =>
        have hcase : (img.etext ≤ va ∧ va < physTop) ∨ pgRoundDown va = uart0 := .inr huart
        have hsame : uart0 + (va &&& 0xFFF) = va := by rw [← huart, pgRoundDown_add]
        rw [Option.bind_some, reach_data hmode, if_pos hcase, hsame]
      case isFalse huart => rw [if_neg (not_or.mpr ⟨hout, huart⟩), Option.bind_none]

theorem imageView_high (htext : img.etext ≤ physTop) (hhigh : physTop ≤ pgRoundDown va) :
    imageView img access va = none := by
  have hdown := pgRoundDown_toNat va
  have htop := physTop_toNat
  have huart : uart0.toNat = 0x10000000 := by decide
  rw [BitVec.le_def] at htext hhigh
  have hne : pgRoundDown va ≠ uart0 := by
    intro heq
    rw [heq] at hhigh
    omega
  rw [imageView, if_neg, if_neg]
  · rintro (⟨-, hlt⟩ | heq)
    · rw [BitVec.lt_def] at hlt
      omega
    · exact hne heq
  · rintro ⟨-, hlt⟩
    rw [BitVec.lt_def] at hlt
    omega

theorem kernelMap_view (haligned : Aligned img.etext) (htext : img.etext ≤ physTop)
    (hmode : hart.user = false) :
    (kernelMap img kstack (pgRoundDown va)).bind (hart.reach access va) =
      (imageView img access va).or (stackView kstack access va) := by
  unfold kernelMap stackView
  cases hfind : (List.finRange nproc).find? fun p => kstackVa p = pgRoundDown va with
  | none => rw [kvminitMap_view haligned hmode, Option.or_none]
  | some p =>
      have hstack : kstackVa p = pgRoundDown va := by simpa using List.find?_some hfind
      have hhigh : physTop ≤ pgRoundDown va := by
        have hp : p.val < 64 := p.isLt
        rw [← hstack, BitVec.le_def, kstackVa_toNat, physTop_toNat]
        omega
      rw [imageView_high htext hhigh, Option.none_or]
      exact reach_data hmode

theorem procMap_view (hmode : hart.user = false) :
    (procMap img (pgRoundDown va)).bind (hart.reach access va) = procView img access va := by
  unfold procMap procView
  split
  · exact reach_data hmode
  · split
    · exact reach_text hmode
    · rfl

theorem kernelMap_high (htext : img.etext ≤ physTop) {va : Word} (hhigh : maxVa ≤ va) :
    kernelMap img kstack va = none := by
  have hmax : maxVa.toNat = 2 ^ 38 := by decide
  have htop := physTop_toNat
  rw [BitVec.le_def, hmax] at hhigh
  have hother : ∀ p, va ≠ kstackVa p := by
    rintro p rfl
    rw [kstackVa_toNat] at hhigh
    omega
  rw [kernelMap_other hother]
  refine kvminitMap_high ?_ htext
  rw [BitVec.le_def]
  omega

theorem procMap_high {va : Word} (hhigh : maxVa ≤ va) : procMap img va = none := by
  rw [procMap, if_neg, if_neg]
  all_goals
    rintro rfl
    revert hhigh
    decide

end Views

/-! ## From the boot on -/

section Boot

variable {img : Image} {kstack : Slot → Word} {k : Kernel} {pages : List Word}
  {trees : Option Slot → Tables} {m₀ m : Memory}

/-- The boot passes through the memory that `kvminithart` finds. -/
theorem exec_kvminit_boot (himg : KernelImage img) (hzero : m₀.freelist = 0)
    (hboot : exec (bootMemory img) m₀ = .ok ((), m)) :
    ∃ m₁ pages nodes, exec (do pmmInit img; kvminit img) m₀ = .ok ((), m₁) ∧
      exec procinit m₁ = .ok ((), m) ∧
      Boot img 134 m₁ pages nodes m.kernelPagetable (kvminitMap img) [] := by
  obtain ⟨m₁, pages₁, hexec₁, hfree, hall⟩ :=
    pmmInit_exec himg.ranged.ne_zero himg.below hzero
  obtain ⟨m₂, pages₂, nodes₂, root, hexec₂, h₂⟩ :=
    exec_kvminit himg (room_le himg.room hall) (by decide) hfree hall
  have hunmapped : ∀ p ∈ List.finRange nproc, kvminitMap img (kstackVa p) = none := by
    intro p _
    refine kvminitMap_high ?_ himg.etext_le
    have hp : p.val < 64 := p.isLt
    rw [BitVec.le_def, kstackVa_toNat, physTop_toNat]
    omega
  obtain ⟨m₃, _, _, _, _, _, hexec₃, h₃, -⟩ :=
    h₂.allKstacks himg.ranged (List.nodup_finRange nproc) hunmapped
      (by rw [List.length_finRange]; decide)
  have hexec : exec (bootMemory img) m₀ = .ok ((), m₃) :=
    exec_bind_ok.mpr ⟨_, _, hexec₁, exec_bind_ok.mpr ⟨_, _, hexec₂, hexec₃⟩⟩
  rw [hboot] at hexec
  cases hexec
  refine ⟨m₂, pages₂, nodes₂, exec_bind_ok.mpr ⟨_, _, hexec₁, hexec₂⟩, hexec₃, ?_⟩
  rw [h₃.kernelPagetable]
  exact h₂

theorem PageInv.kernel_view (himg : KernelImage img) (hinv : PageInv img kstack k pages trees)
    {hart : Walker} (hmode : hart.user = false)
    (hsatp : hart.satp = makeSatp k.memory.kernelPagetable) (marks : Word → Word)
    (access : Access) (va : Word) :
    hart.translate access (k.memory.marked marks) va =
      (imageView img access va).or (stackView kstack access va) := by
  rw [hinv.kernel.translate (hinv.owned.tree none) hsatp,
    reach_below fun _ hhigh => kernelMap_high himg.etext_le hhigh,
    kernelMap_view himg.etext_aligned himg.etext_le hmode]

theorem PageInv.proc_view (hinv : PageInv img kstack k pages trees) {p : Slot} (hp : k.Live p)
    {hart : Walker} (hmode : hart.user = false)
    (hsatp : hart.satp = makeSatp (k.proc p).pagetable) (marks : Word → Word)
    (access : Access) (va : Word) :
    hart.translate access (k.memory.marked marks) va = procView img access va := by
  rw [(hinv.live hp).serves.translate (hinv.owned.tree (some p)) hsatp,
    reach_below fun _ hhigh => procMap_high hhigh, procMap_view hmode]

/-- No mapping in use has `U`. -/
theorem PageInv.user_view (hinv : PageInv img kstack k pages trees) {root : Word}
    (hroot : k.Root root) {hart : Walker} (hmode : hart.user = true)
    (hsatp : hart.satp = makeSatp root) (marks : Word → Word) (access : Access) (va : Word) :
    hart.translate access (k.memory.marked marks) va = none := by
  have hfault : ∀ {map : PageMap}, (∀ va pa perm, map va = some (pa, perm) → perm &&& pteU = 0) →
      ∀ va', (map va').bind (hart.reach access va) = none := by
    intro map hmap va'
    cases htarget : map va' with
    | none => rfl
    | some target =>
        rw [Option.bind_some, Walker.reach, if_neg (grants_user hmode (hmap va' _ _ htarget))]
  rcases hroot with rfl | ⟨p, hp, rfl⟩
  · rw [hinv.kernel.translate (hinv.owned.tree none) hsatp, hfault, ite_self]
    intro va pa perm hmap
    rcases kernelMap_cases hmap with ⟨rfl, -⟩ | ⟨rfl, -⟩ <;> rfl
  · rw [(hinv.live hp).serves.translate (hinv.owned.tree (some p)) hsatp, hfault, ite_self]
    intro va pa perm hmap
    unfold procMap at hmap
    split at hmap
    · cases hmap
      rfl
    · split at hmap <;> cases hmap
      rfl

variable {H : Type} [DecidableEq H] {quiet : Bool} {h : H} {S : Setting Unit}

theorem PageInv.step_root (himg : KernelImage img) (tramp : Trampoline img) {w w' : World H}
    (hinv : PageInv img kstack w.kernel pages trees) (hstep : PageStep img quiet h w w') :
    w'.kernel.memory.kernelPagetable = w.kernel.memory.kernelPagetable := by
  cases hstep with
  | @allocate p result off idle hunused hrun =>
      have hdead : ¬ w.kernel.Live p := fun hlive => hlive hunused
      by_cases hroom : 4 ≤ pages.length
      · obtain ⟨m, pages', nodes, root, hcomp, -, -, hbuilt⟩ :=
          computes_allocFound quiet h p himg.ranged tramp hinv.owned (hinv.dead hdead) hroom
        cases hrun.unique (hcomp w off idle rfl)
        exact hbuilt.kernelPagetable
      · have hpanic := panics_allocFound quiet h p himg.ranged tramp
          hinv.owned (hinv.dead hdead) (by omega)
        cases hrun.unique (hpanic w off idle rfl)
  | @free p reaper off idle hzombie hrun =>
      have hlive : w.kernel.Live p := by
        rw [Kernel.Live, hzombie]
        decide
      obtain ⟨m, pages', k', hcomp, hfreed, -, -, hkernel⟩ :=
        computes_freeProcess quiet h himg.ranged hinv.owned
          (.inr ⟨p, hlive, rfl⟩) (hinv.live hlive) (hinv.root_ne_zero hlive) reaper
      cases hrun.unique (hcomp w off idle rfl)
      rw [World.withKernel, hfreed.memory, hkernel]
  | other hmemory => rw [hmemory]

/-- The table the boot gave to `satp` stays the kernel's. -/
theorem PageInv.run_root (himg : KernelImage img) (tramp : Trampoline img) {w w' : World H}
    (hinv : PageInv img kstack w.kernel pages trees)
    (hrun : ReflTransGen (PageStep img quiet h) w w') :
    w'.kernel.memory.kernelPagetable = w.kernel.memory.kernelPagetable := by
  induction hrun with
  | refl => rfl
  | tail hrun hstep ih =>
      obtain ⟨pages', trees', hinv'⟩ := hinv.run himg.ranged tramp hrun
      exact (hinv'.step_root himg tramp hstep).trans ih

/-- The hart as `kvminithart` leaves it, and any hart under another table in use. -/
structure Paged (img : Image) (kstack : Slot → Word) (hart : Walker) (k : Kernel) : Prop where
  kernel : ∀ marks access va, hart.translate access (k.memory.marked marks) va =
    (imageView img access va).or (stackView kstack access va)
  process : ∀ p, k.Live p → ∀ hart' : Walker, hart'.user = false →
    hart'.satp = makeSatp (k.proc p).pagetable → ∀ marks access va,
      hart'.translate access (k.memory.marked marks) va = procView img access va
  user : ∀ root, k.Root root → ∀ hart' : Walker, hart'.user = true →
    hart'.satp = makeSatp root → ∀ marks access va,
      hart'.translate access (k.memory.marked marks) va = none

/-- `kvminithart` turns paging on in the midst of the boot. -/
def PagingOn (S : Setting Unit) : Prop :=
  ∀ m₀ : Memory, m₀.freelist = 0 → ∃ m₁ start kstack,
    exec (do pmmInit S.img; kvminit S.img) m₀ = .ok ((), m₁) ∧
      exec procinit m₁ = .ok ((), start) ∧
      (∀ p q, kstack p = kstack q → p = q) ∧ (∀ p, Managed S.img (kstack p)) ∧
      ∀ hart : Walker, hart.user = false →
        (∀ marks access va, (kvminithart m₁ hart).translate access (m₁.marked marks) va =
          imageView S.img access va) ∧
        AtRest S start (Paged S.img kstack (kvminithart m₁ hart))

theorem paging_on (himg : KernelImage S.img) (tramp : Trampoline S.img) : PagingOn S := by
  intro m₀ hzero
  obtain ⟨m, pages, nodes, root, kstacks, kstack, hexec, hboot, -, hkstacks, hinj⟩ :=
    exec_bootMemory himg himg.room (le_refl _) hzero
  obtain ⟨m₁, pages₁, nodes₁, hexec₁, hprocinit, hboot₁⟩ := exec_kvminit_boot himg hzero hexec
  have hinv₀ : PageInv S.img kstack (bootWorld m : World Unit).kernel pages (kernelTrees nodes) :=
    PageInv.boot hboot hkstacks hinj
  have hroot₁ : m₁.kernelPagetable = m.kernelPagetable := hboot₁.kernelPagetable
  refine ⟨m₁, m, kstack, hexec₁, hprocinit, hinj,
    fun p => hinv₀.owned.managed_other (.inl ⟨p, rfl⟩), fun hart hmode => ⟨?_, ?_⟩⟩
  · intro marks access va
    have hhigh : ∀ va, maxVa ≤ va → kvminitMap S.img va = none := by
      intro va hva
      refine kvminitMap_high (BitVec.le_trans ?_ hva) himg.etext_le
      decide
    have hsatp : (kvminithart m₁ hart).satp = makeSatp m.kernelPagetable := by
      rw [← hroot₁]
      rfl
    have hmode' : (kvminithart m₁ hart).user = false := hmode
    rw [hboot₁.serves.translate (hboot₁.owned.tree none) hsatp, reach_below hhigh,
      kvminitMap_view himg.etext_aligned hmode']
  · refine atRest_of_steps ⟨himg, tramp, m₀, hzero, hexec⟩ fun w hsteps => ?_
    obtain ⟨pages', trees', hinv⟩ := hinv₀.run himg.ranged tramp hsteps
    have hsatp : (kvminithart m₁ hart).satp = makeSatp w.kernel.memory.kernelPagetable := by
      rw [hinv₀.run_root himg tramp hsteps]
      exact congrArg makeSatp hroot₁
    exact
      { kernel := hinv.kernel_view himg hmode hsatp
        process := fun p hp hart' hmode' hsatp' => hinv.proc_view hp hmode' hsatp'
        user := fun root hroot hart' hmode' hsatp' => hinv.user_view hroot hmode' hsatp' }

theorem paging_on_sample : ∃ m₁ start kstack m,
    Reaches sampleSetting [sampleEntry, sampleEntry] start m ∧ AfterReap m.world.kernel ∧
      Paged sampleImage kstack (kvminithart m₁ ⟨0, false, false, false⟩) m.world.kernel := by
  obtain ⟨⟨start, m₀, hzero, hboot⟩, m, reaches, hfree, reaped⟩ := reaches_reaped
  obtain ⟨m₁, start', kstack, hexec, hprocinit, -, -, hpaged⟩ :=
    paging_on (S := sampleSetting) sampleImage_ok.1 sampleImage_ok.2.1 m₀ hzero
  obtain ⟨_, _, hpmm, hkvm⟩ := exec_bind_ok.mp hexec
  have hboot' : exec (bootMemory sampleImage) m₀ = .ok ((), start') :=
    exec_bind_ok.mpr ⟨_, _, hpmm, exec_bind_ok.mpr ⟨_, _, hkvm, hprocinit⟩⟩
  cases hboot'.symm.trans hboot
  exact ⟨m₁, start, kstack, m, reaches, reaped, (hpaged _ rfl).2 _ _ reaches hfree⟩

end Boot

end Xv6Kernel.Process
