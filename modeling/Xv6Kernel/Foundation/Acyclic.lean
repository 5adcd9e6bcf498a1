import Mathlib.Data.Fintype.EquivFin
import Mathlib.Logic.Relation
import Mathlib.Order.WellFounded

/-!
# Relations without cycles

An acyclic relation orders what its elements wait for: a ring of members, each of
whom waits for what the next one has, would be a cycle.
-/

namespace Xv6Kernel.Foundation

variable {α ι : Type} {r : α → α → Prop}

def Acyclic (r : α → α → Prop) : Prop := ∀ x, ¬ Relation.TransGen r x x

/-- A rank that every pair raises excludes cycles. -/
theorem Acyclic.of_rank (rank : α → ℕ) (hrank : ∀ {x y}, r x y → rank x < rank y) :
    Acyclic r := by
  have hchain : ∀ {x y}, Relation.TransGen r x y → rank x < rank y := by
    intro x y h
    induction h with
    | single hxy => exact hrank hxy
    | tail _ hyz ih => exact ih.trans (hrank hyz)
  exact fun x h => absurd (hchain h) (lt_irrefl _)

theorem Acyclic.no_ring (acyclic : Acyclic r) {members : Finset ι} (hne : members.Nonempty)
    (wants : ι → α) (next : ι → ι)
    (hnext : ∀ i ∈ members, next i ∈ members ∧ r (wants i) (wants (next i))) : False := by
  let later : members → members → Prop := fun i j =>
    Relation.TransGen r (wants j) (wants i)
  have htrans : IsTrans members later := ⟨fun _ _ _ hij hjk => hjk.trans hij⟩
  have hirrefl : Std.Irrefl later := ⟨fun i => acyclic (wants i)⟩
  have hwf : WellFounded later := Finite.wellFounded_of_trans_of_irrefl later
  obtain ⟨i, hi⟩ := hne
  obtain ⟨last, -, hlast⟩ := hwf.has_min Set.univ ⟨⟨i, hi⟩, trivial⟩
  obtain ⟨hmem, hr⟩ := hnext last last.property
  exact hlast ⟨next last, hmem⟩ trivial (.single hr)

end Xv6Kernel.Foundation
