import Mathlib.Data.Set.Card
import Xv6Kernel.Process.RoundRobin

/-!
# Bounded waiting

A process that is `RUNNABLE` gets the hart before any other process gets it twice, so fewer
than `NPROC` times is the hart given to others first.
-/

namespace Xv6Kernel.Process

open Xv6Kernel.Foundation Xv6Kernel.Mm

variable {S : Setting Unit} {entries : List Word} {memory : Memory}
  {run : Nat → Config (Instr Unit) Unit (Ctx Unit) (World Unit)} {n i j : Nat} {p q : Slot}

/-- `q` does not get the hart from `run i` up to `run j`. -/
def Passed (run : Nat → Config (Instr Unit) Unit (Ctx Unit) (World Unit)) (q : Slot)
    (i j : Nat) : Prop :=
  ∀ k, i ≤ k → k < j → ¬ DispatchedAt run q k

/-- The steps from `run i` up to `run j` that give the hart to some process. -/
def dispatches (run : Nat → Config (Instr Unit) Unit (Ctx Unit) (World Unit)) (i j : Nat) :
    Set Nat :=
  {k | i ≤ k ∧ k < j ∧ ∃ p, DispatchedAt run p k}

namespace RunOf

theorem runnable (hrun : RunOf S entries memory run n) (hj : j ≤ n) (hij : i ≤ j)
    (hq : ((run i).world.kernel.proc q).state = .runnable) (hpassed : Passed run q i j) :
    ((run j).world.kernel.proc q).state = .runnable := by
  induction j, hij using Nat.le_induction with
  | base => exact hq
  | succ j hij ih =>
      have hbefore := ih (Nat.le_of_succ_le hj) fun k hik hkj => hpassed k hik (by omega)
      exact hrun.waits hj hbefore (hpassed j hij (Nat.lt_succ_self j))

/-- From its first turn on the history has `q` waiting behind `p`. -/
theorem history_waiting (hrun : RunOf S entries memory run n) (hij : i < j) (hj : j ≤ n)
    (hfirst : DispatchedAt run p i)
    (hq : ((run i).world.kernel.proc q).state = .runnable) (hpassed : Passed run q i j) :
    (turns S.img S.quiet).history run (fun _ _ => False) j p q := by
  induction j, hij using Nat.le_induction with
  | base => exact ⟨hrun.runnable hj (Nat.le_succ i) hq hpassed, .inl hfirst⟩
  | succ j hij ih =>
      have hbefore := ih (Nat.le_of_succ_le hj) fun k hik hkj => hpassed k hik (by omega)
      exact ⟨hrun.runnable hj (by omega) hq hpassed, .inr hbefore⟩

theorem once (hrun : RunOf S entries memory run n) (hij : i < j) (hj : j < n)
    (hfirst : DispatchedAt run p i)
    (hq : ((run i).world.kernel.proc q).state = .runnable) (hpassed : Passed run q i j) :
    ¬ DispatchedAt run p j :=
  fun hsecond => (hrun.allowed hj p hsecond).1 q
    (hrun.history_waiting hij hj.le hfirst hq hpassed)

/-- Every other process has at most one turn while `q` waits. -/
theorem dispatches_lt (hrun : RunOf S entries memory run n) (hj : j ≤ n)
    (hq : ((run i).world.kernel.proc q).state = .runnable) (hpassed : Passed run q i j) :
    (dispatches run i j).ncard < nproc := by
  have hchoice : ∀ k, ∃ p, (∃ p', DispatchedAt run p' k) → DispatchedAt run p k := by
    intro k
    by_cases hk : ∃ p', DispatchedAt run p' k
    · obtain ⟨p, hp⟩ := hk
      exact ⟨p, fun _ => hp⟩
    · exact ⟨q, fun h => absurd h hk⟩
  choose turn hturn using hchoice
  have hother : ∀ k ∈ dispatches run i j, turn k ∈ ({q}ᶜ : Set Slot) := by
    rintro k ⟨hik, hkj, hk⟩ heq
    have heq : turn k = q := heq
    exact hpassed k hik hkj (heq ▸ hturn k hk)
  have hearlier : ∀ k ∈ dispatches run i j, ∀ l ∈ dispatches run i j, k < l →
      turn k ≠ turn l := by
    rintro k ⟨hik, hkj, hk⟩ l ⟨hil, hlj, hl⟩ hkl heq
    have hwaits := hrun.runnable (by omega) hik hq fun k' hik' hkk' =>
      hpassed k' hik' (by omega)
    refine hrun.once hkl (by omega) (hturn k hk) hwaits
      (fun k' hkk' hkl' => hpassed k' (by omega) (by omega)) ?_
    rw [heq]
    exact hturn l hl
  have hinj : Set.InjOn turn (dispatches run i j) := by
    intro k hk l hl heq
    by_contra hne
    rcases Nat.lt_or_gt_of_ne hne with hkl | hlk
    · exact hearlier k hk l hl hkl heq
    · exact hearlier l hl k hk hlk heq.symm
  calc (dispatches run i j).ncard
      ≤ ({q}ᶜ : Set Slot).ncard := Set.ncard_le_ncard_of_injOn turn hother hinj
    _ < (Set.univ : Set Slot).ncard := Set.ncard_lt_ncard (by
        rw [Set.ssubset_univ_iff]
        simp)
    _ = nproc := by simp [Slot]

end RunOf

/-- A waiting process has its turn before `NPROC` turns of others are over, or the run has
not yet come so far and it is still waiting. -/
theorem bounded_waiting (hrun : RunOf S entries memory run n) (hi : i ≤ n)
    (hq : ((run i).world.kernel.proc q).state = .runnable) :
    (∃ k, i ≤ k ∧ k < n ∧ DispatchedAt run q k ∧ (dispatches run i k).ncard < nproc) ∨
      (((run n).world.kernel.proc q).state = .runnable ∧
        (dispatches run i n).ncard < nproc) := by
  by_cases hturn : ∃ k, i ≤ k ∧ k < n ∧ DispatchedAt run q k
  · left
    classical
    obtain ⟨hik, hkn, hk⟩ := Nat.find_spec hturn
    refine ⟨Nat.find hturn, hik, hkn, hk, hrun.dispatches_lt hkn.le hq fun l hil hlk hl => ?_⟩
    exact Nat.find_min hturn hlk ⟨hil, by omega, hl⟩
  · right
    have hpassed : Passed run q i n := fun k hik hkn hk => hturn ⟨k, hik, hkn, hk⟩
    exact ⟨hrun.runnable le_rfl hi hq hpassed, hrun.dispatches_lt le_rfl hq hpassed⟩

/-- In the sample run `initproc` waits while the second process of `main` has a turn. -/
theorem bounded_waiting_sample : ∃ memory run n i,
    run 0 = boot sampleImage () [sampleEntry, sampleEntry] memory ∧
      DispatchedAt run slot₂ i ∧ i < n ∧
      ((∃ k, i ≤ k ∧ k < n ∧ DispatchedAt run slot₀ k ∧ (dispatches run i k).ncard < nproc) ∨
        (((run n).world.kernel.proc slot₀).state = .runnable ∧
          (dispatches run i n).ncard < nproc)) := by
  obtain ⟨memory, m₀, k₀, m₁, k₁, w, k, saved, sie, hboot, hfirst, -, hwaits₀, hwaits₂, -, -⟩ :=
    leads_reentered
  have start : RunOf ⟨sampleImage, (), false⟩ [sampleEntry, sampleEntry] memory
      (fun _ => boot sampleImage () [sampleEntry, sampleEntry] memory) 0 := ⟨rfl, nofun⟩
  obtain ⟨run₀, n₀, hrun₀, -, rfl, -⟩ := start.extend hboot
  obtain ⟨run₁, n₁, i, hrun₁, -, hi, -, -, hat, hkernel⟩ := hrun₀.hands hfirst hwaits₂
  have hwaits : ((run₁ i).world.kernel.proc slot₀).state = .runnable := by
    rw [hkernel]
    exact hwaits₀
  exact ⟨memory, run₁, n₁, i, hrun₁.boot, hat, hi, bounded_waiting hrun₁ hi.le hwaits⟩

/-- Where the scheduler goes on dispatching, nobody waits for ever. -/
theorem starvation_free (hruns : ∀ n, RunOf S entries memory run n)
    (hbusy : ∀ m, ∃ n, m ≤ (dispatches run i n).ncard)
    (hq : ((run i).world.kernel.proc q).state = .runnable) :
    ∃ k, i ≤ k ∧ DispatchedAt run q k := by
  by_contra hnone
  have hpassed : ∀ j, Passed run q i j := fun j k hik _ hk => hnone ⟨k, hik, hk⟩
  obtain ⟨n, hn⟩ := hbusy nproc
  have hfew := (hruns n).dispatches_lt le_rfl hq (hpassed n)
  omega

end Xv6Kernel.Process
