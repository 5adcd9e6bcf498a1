import Mathlib.Data.List.Nodup
import Mathlib.Data.List.Perm.Subperm
import Mathlib.Logic.Function.Basic

/-!
# Radix trees in a memory of tables

A memory maps a table (`P`) and an index (`ι`) to an entry (`V`).  A tree of some
depth is laid out in it by a map from paths to tables; a path lists the indices
taken from the root, the last one first.  Entries of tables above the depth link
to their children, entries at the depth are the leaves.
-/

namespace Xv6Kernel.Foundation

/-- How entries encode absence, children and leaves. -/
structure Format (P V : Type) where
  null : V
  link : P → V
  valid : V → Prop
  target : V → P
  /-- The tables that entries can point to. -/
  Table : P → Prop
  Leaf : V → Prop
  null_invalid : ¬ valid null
  link_valid : ∀ p, valid (link p)
  target_link : ∀ p, Table p → target (link p) = p

/-- The table found at the end of each path. -/
abbrev Nodes (ι P : Type) := List ι → Option P

variable {ι P V : Type}

structure Radix (format : Format P V) (depth : Nat) (mem : P → ι → V)
    (nodes : Nodes ι P) : Prop where
  table : ∀ {path p}, nodes path = some p → format.Table p
  bounded : ∀ {path p}, nodes path = some p → path.length ≤ depth
  parent : ∀ {i path q}, nodes (i :: path) = some q → ∃ p, nodes path = some p
  injective : ∀ {path path' p}, nodes path = some p → nodes path' = some p →
    path = path'
  inner : ∀ {path p}, nodes path = some p → path.length < depth →
    ∀ i, mem p i = (nodes (i :: path)).elim format.null format.link
  leaf : ∀ {path p}, nodes path = some p → path.length = depth →
    ∀ i, mem p i = format.null ∨ format.Leaf (mem p i)

namespace Radix

def Owns (nodes : Nodes ι P) (p : P) : Prop := ∃ path, nodes path = some p

/-- The entry a key leads to; a key is one index longer than a path of full
depth. -/
def entry (format : Format P V) (mem : P → ι → V) (nodes : Nodes ι P) :
    List ι → V
  | [] => format.null
  | i :: path => (nodes path).elim format.null fun p => mem p i

variable {format : Format P V} {depth : Nat} {mem mem' : P → ι → V}
  {nodes : Nodes ι P}

theorem entry_of_node {path : List ι} {p : P} (h : nodes path = some p) (i : ι) :
    entry format mem nodes (i :: path) = mem p i := by
  simp [entry, h]

theorem entry_of_none {path : List ι} (h : nodes path = none) (i : ι) :
    entry format mem nodes (i :: path) = format.null := by
  simp [entry, h]

/-- An entry above the depth is valid exactly when the child is there. -/
theorem inner_valid (h : Radix format depth mem nodes) {path : List ι} {p : P}
    (hp : nodes path = some p) (hlen : path.length < depth) (i : ι) :
    format.valid (mem p i) ↔ ∃ q, nodes (i :: path) = some q := by
  rw [h.inner hp hlen i]
  cases nodes (i :: path) with
  | none => simpa using format.null_invalid
  | some q => simpa using format.link_valid q

theorem target_inner (h : Radix format depth mem nodes) {path : List ι}
    {p q : P} {i : ι} (hp : nodes path = some p) (hlen : path.length < depth)
    (hq : nodes (i :: path) = some q) : format.target (mem p i) = q := by
  rw [h.inner hp hlen i, hq]
  exact format.target_link q (h.table hq)

/-- Writes to tables of others do not touch the tree. -/
theorem frame (h : Radix format depth mem nodes)
    (hsame : ∀ p, Owns nodes p → ∀ i, mem' p i = mem p i) :
    Radix format depth mem' nodes where
  table := h.table
  bounded := h.bounded
  parent := h.parent
  injective := h.injective
  inner := by
    intro path p hp hlen i
    rw [hsame p ⟨path, hp⟩ i]
    exact h.inner hp hlen i
  leaf := by
    intro path p hp hlen i
    rw [hsame p ⟨path, hp⟩ i]
    exact h.leaf hp hlen i

theorem entry_frame (hsame : ∀ p, Owns nodes p → ∀ i, mem' p i = mem p i)
    (key : List ι) :
    entry format mem' nodes key = entry format mem nodes key := by
  cases key with
  | nil => rfl
  | cons i path =>
      cases hnode : nodes path with
      | none => simp [entry_of_none hnode]
      | some p => simp [entry_of_node hnode, hsame p ⟨path, hnode⟩ i]

section Grow

variable [DecidableEq ι] {path path' : List ι} {p p' q : P} {i : ι}

theorem node_update (hnode : Function.update nodes path (some q) path' = some p') :
    (path' = path ∧ p' = q) ∨ nodes path' = some p' := by
  by_cases heq : path' = path
  · subst heq
    simp only [Function.update_self, Option.some.injEq] at hnode
    exact .inl ⟨rfl, hnode.symm⟩
  · rw [Function.update_of_ne heq] at hnode
    exact .inr hnode

theorem kept_update (hnone : nodes path = none) (hnode : nodes path' = some p') :
    Function.update nodes path (some q) path' = some p' := by
  rw [Function.update_of_ne]
  · exact hnode
  · rintro rfl
    rw [hnone] at hnode
    cases hnode

theorem owns_update (hnone : nodes path = none) :
    Owns (Function.update nodes path (some q)) p ↔ Owns nodes p ∨ p = q := by
  constructor
  · rintro ⟨path', hnode⟩
    rcases node_update hnode with ⟨-, rfl⟩ | hbefore
    · exact .inr rfl
    · exact .inl ⟨path', hbefore⟩
  · rintro (⟨path', hnode⟩ | rfl)
    · exact ⟨path', kept_update hnone hnode⟩
    · exact ⟨path, Function.update_self ..⟩

/-- Link an empty table below a node that has no such child yet. -/
theorem grow (h : Radix format depth mem nodes) (hp : nodes path = some p)
    (hlen : path.length < depth) (hnone : nodes (i :: path) = none)
    (htable : format.Table q) (hnew : ¬ Owns nodes q)
    (hlink : mem' p i = format.link q) (hempty : ∀ j, mem' q j = format.null)
    (hsame : ∀ p', Owns nodes p' → ∀ j, ¬ (p' = p ∧ j = i) →
      mem' p' j = mem p' j) :
    Radix format depth mem'
      (Function.update nodes (i :: path) (some q)) := by
  have hchild : ∀ j, nodes (j :: i :: path) = none := by
    intro j
    cases hc : nodes (j :: i :: path) with
    | none => rfl
    | some c =>
        obtain ⟨p', hp'⟩ := h.parent hc
        rw [hnone] at hp'
        cases hp'
  refine ⟨?_, ?_, ?_, ?_, ?_, ?_⟩
  · intro path' p' hnode
    rcases node_update hnode with ⟨-, rfl⟩ | hnode
    · exact htable
    · exact h.table hnode
  · intro path' p' hnode
    rcases node_update hnode with ⟨rfl, -⟩ | hnode
    · exact hlen
    · exact h.bounded hnode
  · intro j path' q' hnode
    rcases node_update hnode with ⟨heq, -⟩ | hnode
    · cases heq
      exact ⟨p, kept_update hnone hp⟩
    · obtain ⟨p', hp'⟩ := h.parent hnode
      exact ⟨p', kept_update hnone hp'⟩
  · intro path₁ path₂ p' h₁ h₂
    rcases node_update h₁ with ⟨rfl, rfl⟩ | h₁ <;> rcases node_update h₂ with ⟨rfl, hq⟩ | h₂
    · rfl
    · exact absurd ⟨path₂, h₂⟩ hnew
    · exact absurd ⟨path₁, hq ▸ h₁⟩ hnew
    · exact h.injective h₁ h₂
  · intro path' p' hnode hlen' j
    rcases node_update hnode with ⟨rfl, rfl⟩ | hbefore
    · rw [hempty j, Function.update_of_ne (by simp), hchild j]
      rfl
    · by_cases hhere : p' = p ∧ j = i
      · obtain ⟨rfl, rfl⟩ := hhere
        cases h.injective hbefore hp
        simp [hlink]
      · have hother : j :: path' ≠ i :: path := by
          intro heq
          cases heq
          rw [hp] at hbefore
          exact hhere ⟨(Option.some.inj hbefore).symm, rfl⟩
        rw [hsame p' ⟨path', hbefore⟩ j hhere, Function.update_of_ne hother]
        exact h.inner hbefore hlen' j
  · intro path' p' hnode hlen' j
    rcases node_update hnode with ⟨rfl, rfl⟩ | hnode
    · exact .inl (hempty j)
    · have hhere : ¬ (p' = p ∧ j = i) := by
        rintro ⟨rfl, -⟩
        cases h.injective hnode hp
        omega
      rw [hsame p' ⟨path', hnode⟩ j hhere]
      exact h.leaf hnode hlen' j

/-- Growing shows in no entry: the new table is empty. -/
theorem entry_grow (h : Radix format depth mem nodes) (hp : nodes path = some p)
    (hlen : path.length < depth) (hnone : nodes (i :: path) = none)
    (hempty : ∀ j, mem' q j = format.null)
    (hsame : ∀ p', Owns nodes p' → ∀ j, ¬ (p' = p ∧ j = i) →
      mem' p' j = mem p' j) {key : List ι} (hkey : key.length = depth + 1) :
    entry format mem' (Function.update nodes (i :: path) (some q)) key =
      entry format mem nodes key := by
  cases key with
  | nil => rfl
  | cons j path' =>
      by_cases heq : path' = i :: path
      · subst heq
        rw [entry_of_none hnone, entry_of_node (Function.update_self ..), hempty]
      · have hupdate : Function.update nodes (i :: path) (some q) path' =
            nodes path' := Function.update_of_ne heq _ _
        cases hnode : nodes path' with
        | none => rw [entry_of_none (hupdate.trans hnode), entry_of_none hnode]
        | some p' =>
            rw [entry_of_node (hupdate.trans hnode), entry_of_node hnode]
            refine hsame p' ⟨path', hnode⟩ j ?_
            rintro ⟨rfl, -⟩
            cases h.injective hnode hp
            simp only [List.length_cons] at hkey
            omega

theorem write (h : Radix format depth mem nodes) (hp : nodes path = some p)
    (hlen : path.length = depth)
    (hleaf : mem' p i = format.null ∨ format.Leaf (mem' p i))
    (hsame : ∀ p', Owns nodes p' → ∀ j, ¬ (p' = p ∧ j = i) →
      mem' p' j = mem p' j) :
    Radix format depth mem' nodes where
  table := h.table
  bounded := h.bounded
  parent := h.parent
  injective := h.injective
  inner := by
    intro path' p' hnode hlen' j
    have hhere : ¬ (p' = p ∧ j = i) := by
      rintro ⟨rfl, -⟩
      cases h.injective hnode hp
      omega
    rw [hsame p' ⟨path', hnode⟩ j hhere]
    exact h.inner hnode hlen' j
  leaf := by
    intro path' p' hnode hlen' j
    by_cases hhere : p' = p ∧ j = i
    · obtain ⟨rfl, rfl⟩ := hhere
      exact hleaf
    · rw [hsame p' ⟨path', hnode⟩ j hhere]
      exact h.leaf hnode hlen' j

theorem entry_write (h : Radix format depth mem nodes)
    (hp : nodes path = some p)
    (hsame : ∀ p', Owns nodes p' → ∀ j, ¬ (p' = p ∧ j = i) →
      mem' p' j = mem p' j) (key : List ι) :
    entry format mem' nodes key =
      if key = i :: path then mem' p i else entry format mem nodes key := by
  by_cases hkey : key = i :: path
  · subst hkey
    simp [entry_of_node hp]
  · rw [if_neg hkey]
    cases key with
    | nil => rfl
    | cons j path' =>
        cases hnode : nodes path' with
        | none => rw [entry_of_none hnode, entry_of_none hnode]
        | some p' =>
            rw [entry_of_node hnode, entry_of_node hnode]
            refine hsame p' ⟨path', hnode⟩ j ?_
            rintro ⟨rfl, rfl⟩
            exact hkey (by rw [h.injective hnode hp])

end Grow

/-- A tree has at most as many tables as there are paths it may use. -/
theorem length_le [DecidableEq P] {pages : List P} (hnodup : pages.Nodup)
    (hpages : ∀ p ∈ pages, Owns nodes p) {paths : List (List ι)}
    (hpaths : ∀ path p, nodes path = some p → path ∈ paths) :
    pages.length ≤ paths.length := by
  have hsub : pages ⊆ paths.filterMap nodes := by
    intro p hp
    obtain ⟨path, hpath⟩ := hpages p hp
    exact List.mem_filterMap.mpr ⟨path, hpaths path p hpath, hpath⟩
  exact Nat.le_trans (hnodup.subperm hsub).length_le (List.length_filterMap_le _ _)

end Radix

end Xv6Kernel.Foundation
