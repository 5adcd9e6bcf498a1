import Xv6Kernel.Mm.MapCalls

/-!
# `dump_pagetable`

The recursion passes the table and the level, and the address it prints is made of the
index at this level alone.
-/

namespace Xv6Kernel.Mm

open Xv6Kernel.Foundation

/-! ## vm.c -/

/-- One line of output: the indentation and the arguments of the second `printf`. -/
structure Line where
  indent : Nat
  va : Word
  pte : Word
  deriving DecidableEq

/-- A line for an entry that maps a page. -/
def Line.Leaf (line : Line) : Prop := line.pte &&& pteRWX ≠ 0

instance (line : Line) : Decidable line.Leaf := inferInstanceAs (Decidable (_ ≠ _))

/-- The lines printed for each index in turn. -/
def dumpRows (row : Fin 512 → MemM (List Line)) : List (Fin 512) → MemM (List Line)
  | [] => return []
  | i :: rest => do
      let lines ← row i
      let others ← dumpRows row rest
      return lines ++ others

/-- `dump_pagetable` with the depth its recursion may still reach. -/
def dumpFrom : Nat → Word → Int → MemM (List Line)
  | 0, _, _ => diverge
  | depth + 1, pt, level =>
      dumpRows (fun i => do
        let pte ← load (cell pt i)
        if pte &&& pteV ≠ 0 then
          let va := BitVec.ofNat 64 i.val <<< (12 + 9 * level).toNat
          let line : Line := ⟨level.toNat, va, pte⟩
          if pte &&& pteRWX = 0 then
            let below ← dumpFrom depth (pte2pa pte) (level - 1)
            return line :: below
          return [line]
        return []) (List.finRange 512)

/-- As `destroy_pagetable`, a deeper recursion never comes back. -/
def dumpPagetable (pt : Word) (level : Int) : MemM (List Line) :=
  dumpFrom (2 ^ 52 + 1) pt level

/-! ## The lines of a tree -/

/-- The keys below a path, in the order of the recursion. -/
def keysBelow : Nat → List (Fin 512) → List (List (Fin 512))
  | 0, path => (List.finRange 512).map (· :: path)
  | level + 1, path => (List.finRange 512).flatMap fun i => keysBelow level (i :: path)

theorem mem_keysBelow {level : Nat} {path k : List (Fin 512)} :
    k ∈ keysBelow level path ↔ ∃ s : List (Fin 512), s.length = level + 1 ∧ k = s ++ path := by
  induction level generalizing path with
  | zero =>
      simp only [keysBelow, List.mem_map, List.mem_finRange, true_and]
      constructor
      · rintro ⟨i, rfl⟩
        exact ⟨[i], rfl, rfl⟩
      · rintro ⟨s, hs, rfl⟩
        obtain ⟨i, rfl⟩ := List.length_eq_one_iff.mp hs
        exact ⟨i, rfl⟩
  | succ level ih =>
      simp only [keysBelow, List.mem_flatMap, List.mem_finRange, true_and, ih]
      constructor
      · rintro ⟨i, s, hs, rfl⟩
        exact ⟨s ++ [i], by simp [hs], by simp⟩
      · rintro ⟨s, hs, rfl⟩
        have hne : s ≠ [] := by
          rintro rfl
          simp at hs
        refine ⟨s.getLast hne, s.dropLast, by simp [hs], ?_⟩
        conv_lhs => rw [← List.dropLast_append_getLast hne]
        simp

theorem nodup_keysBelow (level : Nat) (path : List (Fin 512)) :
    (keysBelow level path).Nodup := by
  induction level generalizing path with
  | zero => exact (List.nodup_finRange 512).map fun i j heq => (List.cons.inj heq).1
  | succ level ih =>
      refine List.nodup_flatMap.mpr ⟨fun i _ => ih _, ?_⟩
      refine (List.nodup_finRange 512).imp fun {i j} hne => ?_
      refine List.disjoint_left.mpr fun k hi hj => ?_
      obtain ⟨s, hs, rfl⟩ := mem_keysBelow.mp hi
      obtain ⟨s', hs', heq⟩ := mem_keysBelow.mp hj
      have htail := (List.append_inj heq (hs.trans hs'.symm)).2
      exact hne (List.cons.inj htail).1

section Lines

variable {m : Memory} {nodes : Tables}

/-- The leaf line of a key. -/
def leafLine (m : Memory) (nodes : Tables) : List (Fin 512) → Option Line
  | [] => none
  | i :: path =>
      let pte := Radix.entry sv39 m.page nodes (i :: path)
      if pte &&& pteV ≠ 0 then some ⟨0, BitVec.ofNat 64 i.val <<< 12, pte⟩ else none

theorem leafLine_none {i : Fin 512} {path : List (Fin 512)} (hnone : nodes path = none) :
    leafLine m nodes (i :: path) = none := by
  have hentry : Radix.entry sv39 m.page nodes (i :: path) = 0 := Radix.entry_of_none hnone i
  simp [leafLine, hentry]

/-- No page is mapped without one of R, W and X. -/
def Readable (m : Memory) (nodes : Tables) : Prop :=
  ∀ k : List (Fin 512), k.length = 3 → Radix.entry sv39 m.page nodes k &&& pteV ≠ 0 →
    Radix.entry sv39 m.page nodes k &&& pteRWX ≠ 0

theorem link_and_rwx (p : Word) : sv39.link p &&& pteRWX = 0 :=
  (pa2pte_or_and (by decide) (by decide)).trans (by decide)

theorem filterMap_none (h : Radix sv39 2 m.page nodes) {level : Nat} {path : List (Fin 512)}
    (hnone : nodes path = none) : (keysBelow level path).filterMap (leafLine m nodes) = [] := by
  rw [List.filterMap_eq_nil_iff]
  intro k hk
  obtain ⟨s, hs, rfl⟩ := mem_keysBelow.mp hk
  have hmissing : ∀ s : List (Fin 512), nodes (s ++ path) = none := by
    intro s
    induction s with
    | nil => exact hnone
    | cons i s ih =>
        cases hnode : nodes (i :: (s ++ path)) with
        | none => exact hnode
        | some q =>
            obtain ⟨p, hp⟩ := h.parent hnode
            rw [ih] at hp
            cases hp
  cases s with
  | nil => simp at hs
  | cons i s => exact leafLine_none (hmissing s)

theorem exec_dumpRows {row : Fin 512 → MemM (List Line)} {lines : Fin 512 → List Line}
    (hrow : ∀ i, exec (row i) m = .ok (lines i, m)) (is : List (Fin 512)) :
    exec (dumpRows row is) m = .ok (is.flatMap lines, m) := by
  induction is with
  | nil => rfl
  | cons i is ih => simp [dumpRows, hrow, ih]

/-- The leaf lines of a table are those of the keys below it. -/
theorem exec_dumpFrom (h : Radix sv39 2 m.page nodes) (hread : Readable m nodes)
    {level depth : Nat} (hdepth : level < depth) {path : List (Fin 512)} {pt : Word} (hpt : nodes path = some pt)
    (hlen : path.length + level = 2) :
    ∃ lines, exec (dumpFrom depth pt level) m = .ok (lines, m) ∧
      lines.filter (fun line => line.Leaf) =
        (keysBelow level path).filterMap (leafLine m nodes) := by
  induction level generalizing depth path pt with
  | zero =>
      obtain ⟨depth, rfl⟩ := Nat.exists_eq_succ_of_ne_zero (Nat.ne_of_gt hdepth)
      have hrow : ∀ i : Fin 512, exec (do
          let pte ← load (cell pt i)
          if pte &&& pteV ≠ 0 then
            let va := BitVec.ofNat 64 i.val <<< (12 + 9 * (0 : Int)).toNat
            let line : Line := ⟨(0 : Int).toNat, va, pte⟩
            if pte &&& pteRWX = 0 then
              let below ← dumpFrom depth (pte2pa pte) (0 - 1)
              return line :: below
            return [line]
          return []) m = .ok ((leafLine m nodes (i :: path)).toList, m) := by
        intro i
        have hentry : Radix.entry sv39 m.page nodes (i :: path) = m.word (cell pt i) :=
          Radix.entry_of_node hpt i
        rcases h.leaf hpt (by omega) i with hnull | hvalid
        · have hword : m.word (cell pt i) = 0#64 := hnull
          simp [leafLine, hentry, hword]
        · have hvalid' : ¬ m.word (cell pt i) &&& pteV = 0#64 := hvalid
          have hrwx' : ¬ m.word (cell pt i) &&& pteRWX = 0#64 := by
            have hrwx := hread (i :: path) (by simp only [List.length_cons]; omega)
            rw [hentry] at hrwx
            exact hrwx hvalid
          simp [leafLine, hentry, hvalid', hrwx']
      refine ⟨_, exec_dumpRows hrow _, ?_⟩
      refine (List.filter_eq_self.mpr fun line hline => ?_).trans ?_
      · obtain ⟨i, -, hi⟩ := List.mem_flatMap.mp hline
        have hentry : Radix.entry sv39 m.page nodes (i :: path) = m.page pt i :=
          Radix.entry_of_node hpt i
        have hrwx := hread (i :: path) (by simp only [List.length_cons]; omega)
        simp only [leafLine, hentry, Option.mem_toList] at hi hrwx
        split at hi
        · next hvalid =>
          cases hi
          exact decide_eq_true (hrwx hvalid)
        · cases hi
      · rw [keysBelow, List.filterMap_map, List.filterMap_eq_flatMap_toList]
        rfl
  | succ level ih =>
      obtain ⟨depth, rfl⟩ := Nat.exists_eq_succ_of_ne_zero (Nat.ne_of_gt (Nat.zero_lt_of_lt hdepth))
      have hrow : ∀ i : Fin 512, ∃ lines, exec (do
          let pte ← load (cell pt i)
          if pte &&& pteV ≠ 0 then
            let va := BitVec.ofNat 64 i.val <<< (12 + 9 * ((level + 1 : Nat) : Int)).toNat
            let line : Line := ⟨((level + 1 : Nat) : Int).toNat, va, pte⟩
            if pte &&& pteRWX = 0 then
              let below ← dumpFrom depth (pte2pa pte) (((level + 1 : Nat) : Int) - 1)
              return line :: below
            return [line]
          return []) m = .ok (lines, m) ∧ lines.filter (fun line => line.Leaf) =
            (keysBelow level (i :: path)).filterMap (leafLine m nodes) := by
        intro i
        have hinner := h.inner hpt (by omega) i
        have hlevel : ((level + 1 : Nat) : Int) - 1 = (level : Int) := by omega
        cases hnode : nodes (i :: path) with
        | none =>
            rw [hnode] at hinner
            have hword : m.word (cell pt i) = 0#64 := hinner
            refine ⟨[], by simp [hword], ?_⟩
            rw [filterMap_none h hnode]
            rfl
        | some q =>
            rw [hnode] at hinner
            have hword : m.word (cell pt i) = sv39.link q := hinner
            have hvalid : ¬ sv39.link q &&& pteV = 0#64 := sv39.link_valid q
            have hrwx : sv39.link q &&& pteRWX = 0#64 := link_and_rwx q
            have htarget : pte2pa (sv39.link q) = q := sv39.target_link q (h.table hnode)
            have hdeep : level < depth := by omega
            obtain ⟨below, hexec, hbelow⟩ := ih hdeep hnode (by
              simp only [List.length_cons]
              omega)
            refine ⟨_, by simp [hword, hvalid, hrwx, htarget, hexec]; rfl, ?_⟩
            rw [List.filter_cons_of_neg, hbelow]
            simp [Line.Leaf, hrwx]
      choose lines hexec hlines using hrow
      refine ⟨_, exec_dumpRows hexec _, ?_⟩
      rw [keysBelow, List.filterMap_flatMap, List.filter_flatMap]
      simp only [hlines]

end Lines

/-! ## What the dump shows -/

/-- A page of the Sv39 address space with a valid entry. -/
def Mapped (m : Memory) (root va : Word) : Prop :=
  Aligned va ∧ va.toNat < 2 ^ 39 ∧ entryAt m root va &&& pteV ≠ 0

/-- Each mapped page has one leaf line, with its address and its entry, and there are no
other leaf lines. -/
structure Reports (m : Memory) (root : Word) (lines : List Line) : Prop where
  shown : ∀ va, Mapped m root va → ∃ line,
    lines.filter (fun line => line.Leaf ∧ line.va = va) = [line] ∧
      line.pte = entryAt m root va
  mapped : ∀ line ∈ lines, line.Leaf → Mapped m root line.va

theorem filterMap_unique {α β : Type} {f : α → Option β} {items : List α} {a : α} {b : β}
    (hnodup : items.Nodup) (hmem : a ∈ items) (ha : f a = some b)
    (hother : ∀ a' ∈ items, a' ≠ a → f a' = none) : items.filterMap f = [b] := by
  obtain ⟨before, after, rfl⟩ := List.append_of_mem hmem
  have hmiddle := List.nodup_middle.mp hnodup
  rw [List.nodup_cons, List.mem_append, not_or] at hmiddle
  have hbefore : before.filterMap f = [] := List.filterMap_eq_nil_iff.mpr fun a' ha' =>
    hother a' (List.mem_append_left _ ha') fun heq => hmiddle.1.1 (heq ▸ ha')
  have hafter : after.filterMap f = [] := List.filterMap_eq_nil_iff.mpr fun a' ha' =>
    hother a' (List.mem_append_right _ (List.mem_cons_of_mem _ ha'))
      fun heq => hmiddle.1.2 (heq ▸ ha')
  simp [hbefore, hafter, ha]

theorem shift_toNat (i : Fin 512) : (BitVec.ofNat 64 i.val <<< 12).toNat = i.val * 4096 := by
  have hi := i.isLt
  rw [BitVec.toNat_shiftLeft, BitVec.toNat_ofNat, Nat.shiftLeft_eq]
  omega

section Dump

variable {m : Memory} {nodes : Tables} {pages : List Word} {root va : Word}

/-- The leaf line of a page shows the lowest index of its address. -/
theorem leafLine_key (h : Apart m nodes pages) (hroot : nodes [] = some root)
    (hmapped : Mapped m root va) : leafLine m nodes (key va) =
      some ⟨0, BitVec.ofNat 64 (vpn va 0).val <<< 12, entryAt m root va⟩ := by
  have hentry : Radix.entry sv39 m.page nodes (key va) = entryAt m root va :=
    (entryAt_eq h.tree hroot va).symm
  rw [key, leafLine, ← key, hentry, if_pos hmapped.2.2]

theorem leafLine_some (h : Apart m nodes pages) (hroot : nodes [] = some root)
    {k : List (Fin 512)} (hk : k.length = 3) {line : Line}
    (hline : leafLine m nodes k = some line) : ∃ va, Mapped m root va ∧ k = key va ∧
      line = ⟨0, BitVec.ofNat 64 (vpn va 0).val <<< 12, entryAt m root va⟩ := by
  obtain ⟨va, hva, hlt, rfl⟩ := exists_key hk
  have hentry : Radix.entry sv39 m.page nodes (key va) = entryAt m root va :=
    (entryAt_eq h.tree hroot va).symm
  rw [key, leafLine, ← key, hentry] at hline
  split at hline
  · next hvalid =>
    cases hline
    exact ⟨va, ⟨hva, hlt, hvalid⟩, rfl, rfl⟩
  · cases hline

theorem low_index (hva : Aligned va) (hlt : va.toNat < 2 ^ 21) :
    BitVec.ofNat 64 (vpn va 0).val <<< 12 = va := by
  rw [aligned_iff] at hva
  apply BitVec.eq_of_toNat_eq
  rw [shift_toNat]
  simp only [vpn]
  omega

/-- The dump comes back, and each of its leaf lines belongs to a mapped page. -/
theorem exec_dumpPagetable (h : Apart m nodes pages) (hread : Readable m nodes)
    (hroot : nodes [] = some root) : ∃ lines, exec (dumpPagetable root 2) m = .ok (lines, m) ∧
      lines.filter (fun line => line.Leaf) =
        (keysBelow 2 []).filterMap (leafLine m nodes) ∧
      ∀ line ∈ lines, line.Leaf → ∃ va, Mapped m root va ∧
        line = ⟨0, BitVec.ofNat 64 (vpn va 0).val <<< 12, entryAt m root va⟩ := by
  obtain ⟨lines, hexec, hleaf⟩ :=
    exec_dumpFrom h.tree hread (show 2 < 2 ^ 52 + 1 by norm_num) hroot rfl
  refine ⟨lines, hexec, hleaf, fun line hline hl => ?_⟩
  have hin : line ∈ lines.filter (fun line => line.Leaf) :=
    List.mem_filter.mpr ⟨hline, decide_eq_true hl⟩
  rw [hleaf] at hin
  obtain ⟨k, hk, hkline⟩ := List.mem_filterMap.mp hin
  obtain ⟨s, hs, rfl⟩ := mem_keysBelow.mp hk
  obtain ⟨va, hmapped, -, rfl⟩ := leafLine_some h hroot (by simp [hs]) hkline
  exact ⟨va, hmapped, rfl⟩

theorem Reports.low {lines : List Line} (h : Apart m nodes pages) (hread : Readable m nodes)
    (hroot : nodes [] = some root) (hexec : exec (dumpPagetable root 2) m = .ok (lines, m)) (reports : Reports m root lines)
    (hmapped : Mapped m root va) : va.toNat < 2 ^ 21 := by
  obtain ⟨lines', hexec', -, hmem⟩ := exec_dumpPagetable h hread hroot
  rw [hexec'] at hexec
  cases hexec
  obtain ⟨line, hlines, -⟩ := reports.shown va hmapped
  have hin : line ∈ lines.filter (fun line => line.Leaf ∧ line.va = va) := by
    rw [hlines]
    exact List.mem_singleton_self line
  obtain ⟨hline, hboth⟩ := List.mem_filter.mp hin
  obtain ⟨hl, hva⟩ := of_decide_eq_true hboth
  obtain ⟨va', -, heq⟩ := hmem line hline hl
  have hlt := (vpn va' 0).isLt
  rw [← hva, heq, shift_toNat]
  omega

/-- Every call of `map_page` has asked for one of R, W and X. -/
abbrev Filled : Word → Memory → Prop := BuiltWith fun perm => perm &&& pteRWX ≠ 0

theorem Filled.readable (built : Filled root m) : ∃ nodes pages, Apart m nodes pages ∧
    Readable m nodes ∧ nodes [] = some root := by
  induction built with
  | @create m m' pages free table hexec =>
      refine ⟨_, _, apart_create free table hexec, fun k hk hvalid => ?_,
        by simp [Ownership.rootOnly]⟩
      obtain ⟨va, -, -, rfl⟩ := exists_key hk
      have hzero : Radix.entry sv39 m'.page (Ownership.rootOnly root) (key va) = 0 :=
        Ownership.pteOf_rootOnly m' root va
      rw [hzero] at hvalid
      simp at hvalid
  | map before hperm hexec ih =>
      obtain ⟨nodes, pages, h, hread, hroot⟩ := ih
      rcases mapPage_cases h hroot hexec with ⟨-, rfl, -⟩ | ⟨-, -, -, -, nodes', pages', hr⟩
      · exact ⟨nodes, pages, h, hread, hroot⟩
      · refine ⟨nodes', pages', hr.apart h, fun k hk => ?_, hr.kept hroot⟩
        rw [hr.entries k hk]
        split
        · exact fun _ => leafPte_rwx hperm
        · exact hread k hk

/-- The dump reports the table if and only if only pages below 2 MiB are mapped. -/
theorem dump_reports_iff (built : Filled root m) :
    ∃ lines, exec (dumpPagetable root 2) m = .ok (lines, m) ∧
      (Reports m root lines ↔ ∀ va, Mapped m root va → va.toNat < 2 ^ 21) := by
  obtain ⟨nodes, pages, h, hread, hroot⟩ := built.readable
  obtain ⟨lines, hexec, hleaf, hmem⟩ := exec_dumpPagetable h hread hroot
  refine ⟨lines, hexec, fun reports va hmapped => reports.low h hread hroot hexec hmapped,
    fun hlow => ⟨fun va hmapped => ?_, fun line hline hl => ?_⟩⟩
  · refine ⟨⟨0, va, entryAt m root va⟩, ?_, rfl⟩
    have hsplit : lines.filter (fun line => line.Leaf ∧ line.va = va) =
        (lines.filter fun line => line.Leaf).filter fun line => line.va = va := by
      rw [List.filter_filter]
      simp only [Bool.decide_and, Bool.and_comm]
    rw [hsplit, hleaf, List.filter_filterMap]
    refine filterMap_unique (nodup_keysBelow 2 [])
      (mem_keysBelow.mpr ⟨key va, rfl, (List.append_nil _).symm⟩) ?_ fun k hk hne => ?_
    · rw [leafLine_key h hroot hmapped, low_index hmapped.1 (hlow va hmapped)]
      simp
    · obtain ⟨s, hs, rfl⟩ := mem_keysBelow.mp hk
      cases hline : leafLine m nodes (s ++ []) with
      | none => rfl
      | some line =>
          obtain ⟨va', hmapped', hkey, rfl⟩ := leafLine_some h hroot (by simp [hs]) hline
          rw [low_index hmapped'.1 (hlow va' hmapped')]
          have hva : va' ≠ va := fun heq => hne (heq ▸ hkey)
          simp [Option.filter, hva]
  · obtain ⟨va, hmapped, rfl⟩ := hmem line hline hl
    have heq : BitVec.ofNat 64 (vpn va 0).val <<< 12 = va :=
      low_index hmapped.1 (hlow va hmapped)
    simp only [heq]
    exact hmapped

theorem built_mapped : ∃ m, Filled kernBase m ∧ Mapped m kernBase (1 <<< 21) := by
  obtain ⟨m, m', built, hexec, -⟩ := exec_map_threePages (fun perm => perm &&& pteRWX ≠ 0)
    (show Aligned (1 <<< 21) by decide)
  obtain ⟨nodes, pages, h, hroot⟩ := built.apart
  rcases mapPage_cases h hroot hexec with
    ⟨hrefused, -⟩ | ⟨-, hva, -, -, nodes', pages', hr⟩
  · exact absurd hrefused (by decide)
  · refine ⟨m', built.map (show pteR &&& pteRWX ≠ 0 by decide) hexec, hva, by decide, ?_⟩
    rw [entryAt_eq hr.tree (hr.kept hroot), pteOf, hr.entries _ rfl, if_pos rfl]
    decide

theorem dump_reports_sample : ∃ m lines, Filled kernBase m ∧
    exec (dumpPagetable kernBase 2) m = .ok (lines, m) ∧
    (Reports m kernBase lines ↔ ∀ va, Mapped m kernBase va → va.toNat < 2 ^ 21) := by
  obtain ⟨m, built, -⟩ := built_mapped
  obtain ⟨lines, hexec, hiff⟩ := dump_reports_iff built
  exact ⟨m, lines, built, hexec, hiff⟩

/-- The page at 2 MiB is shown at address 0. -/
theorem dump_not_reports : ¬ ∀ root m lines, Filled root m →
    exec (dumpPagetable root 2) m = .ok (lines, m) → Reports m root lines := by
  intro hclaim
  obtain ⟨m, built, hmapped⟩ := built_mapped
  obtain ⟨nodes, pages, h, hread, hroot⟩ := built.readable
  obtain ⟨lines, hexec, -, -⟩ := exec_dumpPagetable h hread hroot
  have hlow := (hclaim _ m lines built hexec).low h hread hroot hexec hmapped
  exact absurd hlow (by decide)

end Dump

end Xv6Kernel.Mm
