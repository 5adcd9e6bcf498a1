import Mathlib.Data.List.Nodup

/-!
# Linked lists in a store

`Chain next null head cells` says that following `next` from `head` visits
exactly `cells`, in this order, and then meets `null`.
-/

namespace Xv6Kernel.Foundation

variable {α : Type}

def Chain (next : α → α) (null : α) : α → List α → Prop
  | head, [] => head = null
  | head, cell :: cells =>
      head = cell ∧ cell ≠ null ∧ Chain next null (next cell) cells

namespace Chain

variable {next next' : α → α} {null head : α} {cells cells' : List α}

theorem ne_null (h : Chain next null head cells) {cell : α}
    (hmem : cell ∈ cells) : cell ≠ null := by
  induction cells generalizing head with
  | nil => simp at hmem
  | cons first rest ih =>
      rcases List.mem_cons.mp hmem with rfl | hrest
      · exact h.2.1
      · exact ih h.2.2 hrest

theorem eq_nil_iff (h : Chain next null head cells) :
    head = null ↔ cells = [] := by
  cases cells with
  | nil => simpa [Chain] using h
  | cons first rest => simpa [h.1] using h.2.1

theorem unique (h : Chain next null head cells)
    (h' : Chain next null head cells') : cells = cells' := by
  induction cells generalizing head cells' with
  | nil => exact ((eq_nil_iff h').mp h).symm
  | cons first rest ih =>
      obtain ⟨rfl, hne, hrest⟩ := h
      cases cells' with
      | nil => exact absurd h' hne
      | cons first' rest' =>
          obtain ⟨rfl, -, hrest'⟩ := h'
          rw [ih hrest hrest']

theorem tail_from {before after : List α} {cell : α}
    (h : Chain next null head (before ++ cell :: after)) :
    Chain next null cell (cell :: after) := by
  induction before generalizing head with
  | nil => exact ⟨rfl, h.2⟩
  | cons first rest ih => exact ih h.2.2

/-- A chain that ends cannot come back to a cell it has left. -/
theorem nodup (h : Chain next null head cells) : cells.Nodup := by
  induction cells generalizing head with
  | nil => exact List.nodup_nil
  | cons first rest ih =>
      refine List.nodup_cons.mpr ⟨fun hmem => ?_, ih h.2.2⟩
      obtain ⟨before, after, rfl⟩ := List.append_of_mem hmem
      have hself : Chain next null first (first :: (before ++ first :: after)) :=
        ⟨rfl, h.2⟩
      have hagain : Chain next null first (first :: after) := tail_from h.2.2
      have hlen := congrArg List.length (unique hself hagain)
      simp only [List.length_cons, List.length_append] at hlen
      omega

/-- Writes outside the cells leave the chain alone. -/
theorem frame (h : Chain next null head cells)
    (hsame : ∀ cell ∈ cells, next' cell = next cell) :
    Chain next' null head cells := by
  induction cells generalizing head with
  | nil => exact h
  | cons first rest ih =>
      obtain ⟨hhead, hne, hrest⟩ := h
      refine ⟨hhead, hne, ?_⟩
      rw [hsame first (by simp)]
      exact ih hrest fun cell hcell => hsame cell (by simp [hcell])

theorem push {cell : α} (h : Chain next null head cells) (hne : cell ≠ null)
    (hlink : next' cell = head)
    (hsame : ∀ other ∈ cells, next' other = next other) :
    Chain next' null cell (cell :: cells) :=
  ⟨rfl, hne, hlink ▸ h.frame hsame⟩

end Chain

end Xv6Kernel.Foundation
