import ShortNames.Proofs.ByteOrder
import ShortNames.Proofs.Trees

/-!
# The files of a tree

The leaves of a tree are the files that its places lead to, each once. Two files lie apart from the
first directory on that they do not share, and there the order of the names decides, so the files
come in the order of their places, name by name.
-/

namespace ShortNames

/-- What a directory can call an entry. -/
def IsEntryName (name : String) : Prop :=
  name ≠ "" ∧ '/' ∉ name.toList

instance (name : String) : Decidable (IsEntryName name) :=
  inferInstanceAs (Decidable (_ ∧ _))

/-- Whether one place comes before another: name by name from the root, each name by its bytes. -/
def PlaceBefore : List String → List String → Prop :=
  List.Lex fun a b => Text.BytesBefore a.toList b.toList

theorem PlaceBefore.ne {place place' : List String} (h : PlaceBefore place place') :
    place ≠ place' := by
  rintro rfl
  apply List.lex_irrefl _ place h
  exact fun name => List.lex_irrefl UInt8.lt_irrefl _

namespace Tree

variable {α : Type}

/-- No directory of the tree has two entries of one name, and all names are fit for an entry. -/
inductive WellNamed : Tree α → Prop
  | file (content : α) : WellNamed (.file content)
  | link (target : String) : WellNamed (.link target)
  | directory {entries : List (String × Tree α)} (hKeys : (entries.map (·.1)).Nodup)
    (hNames : ∀ e ∈ entries, IsEntryName e.1) (hEntries : ∀ e ∈ entries, WellNamed e.2) :
    WellNamed (.directory entries)

section Places

variable {t u : Tree α} {name : String} {place : List String} {entries : List (String × Tree α)}

theorem get?_cons_eq_some_iff : t.get? (name :: place) = some u ↔
    ∃ entries s, t = directory entries ∧ entries.lookup name = some s ∧
      s.get? place = some u := by
  rw [get?, Option.bind_eq_some_iff]
  constructor
  · rintro ⟨s, hs, hu⟩
    cases t with
    | file content => cases hs
    | link target => cases hs
    | directory entries => exact ⟨entries, s, rfl, hs, hu⟩
  · rintro ⟨entries, s, rfl, hs, hu⟩
    exact ⟨s, hs, hu⟩

theorem WellNamed.of_lookup (h : (Tree.directory entries).WellNamed)
    (hAt : entries.lookup name = some u) : IsEntryName name ∧ u.WellNamed := by
  cases h with
  | directory _ hNames hEntries =>
    exact ⟨hNames _ (mem_of_lookup hAt), hEntries _ (mem_of_lookup hAt)⟩

theorem WellNamed.get? (h : t.WellNamed) (hAt : t.get? place = some u) :
    (∀ name ∈ place, IsEntryName name) ∧ u.WellNamed := by
  induction place generalizing t with
  | nil =>
    cases hAt
    exact ⟨nofun, h⟩
  | cons name place ih =>
    obtain ⟨entries, s, rfl, hs, hu⟩ := get?_cons_eq_some_iff.mp hAt
    obtain ⟨hName, hWell⟩ := h.of_lookup hs
    obtain ⟨hPlace, hu⟩ := ih hWell hu
    exact ⟨List.forall_mem_cons.mpr ⟨hName, hPlace⟩, hu⟩

theorem outlineEntries_eq_map (entries : List (String × Tree α)) :
    outlineEntries entries = entries.map fun e => (e.1, e.2.outline) := by
  induction entries with
  | nil => rfl
  | cons e entries ih => rw [outlineEntries, ih, List.map_cons]

theorem WellNamed.outline (h : t.WellNamed) : t.outline.WellNamed := by
  induction h with
  | file content => exact .file ()
  | link target => exact .link target
  | @directory entries hKeys hNames _ ih =>
    rw [Tree.outline, outlineEntries_eq_map]
    constructor
    · rwa [List.map_map]
    · exact List.forall_mem_map.mpr hNames
    · exact List.forall_mem_map.mpr ih

end Places

section Leaves

/-- What stands below one entry of a directory. -/
def branch (e : String × Tree α) : String × List (List String × α) :=
  (e.1, e.2.leaves.map fun l => (e.1 :: l.1, l.2))

theorem branches_eq_map (entries : List (String × Tree α)) :
    branches entries = entries.map branch := by
  induction entries with
  | nil => rfl
  | cons e entries ih => rw [branches, ih, List.map_cons, branch]

theorem mem_leaves_directory {entries : List (String × Tree α)} {l : List String × α} :
    l ∈ (directory entries).leaves ↔
      ∃ e ∈ entries, ∃ l' ∈ e.2.leaves, (e.1 :: l'.1, l'.2) = l := by
  rw [leaves, branches_eq_map, List.mem_flatMap]
  simp only [List.mem_mergeSort, List.mem_map]
  constructor
  · rintro ⟨_, ⟨e, he, rfl⟩, hl⟩
    exact ⟨e, he, List.mem_map.mp hl⟩
  · rintro ⟨e, he, hl⟩
    exact ⟨_, ⟨e, he, rfl⟩, List.mem_map.mpr hl⟩

/-- The leaves are what the places lead to where files stand. -/
theorem WellNamed.mem_leaves_iff {t : Tree α} (h : t.WellNamed) {place : List String} {c : α} :
    (place, c) ∈ t.leaves ↔ t.get? place = some (.file c) := by
  induction h generalizing place with
  | file content =>
    cases place with
    | nil => simp [leaves, Tree.get?, eq_comm]
    | cons name place => simp [leaves, Tree.get?, entry?]
  | link target =>
    cases place with
    | nil => simp [leaves, Tree.get?]
    | cons name place => simp [leaves, Tree.get?, entry?]
  | @directory entries hKeys hNames _ ih =>
    rw [mem_leaves_directory]
    cases place with
    | nil => simp [Tree.get?]
    | cons name place =>
      constructor
      · rintro ⟨⟨n, s⟩, he, ⟨p, d⟩, hl, hSame⟩
        cases hSame
        exact get?_cons_eq_some_iff.mpr
          ⟨entries, s, rfl, (lookup_eq_some_iff_mem hKeys).mpr he, (ih _ he).mp hl⟩
      · intro hAt
        obtain ⟨_, s, hEntries, hs, hu⟩ := get?_cons_eq_some_iff.mp hAt
        cases hEntries
        have he := mem_of_lookup hs
        exact ⟨_, he, _, (ih _ he).mpr hu, rfl⟩

theorem WellNamed.mem_files_iff {t : Tree α} (h : t.WellNamed) {place : List String} :
    place ∈ t.files ↔ ∃ content, t.get? place = some (.file content) := by
  rw [files, List.mem_map]
  constructor
  · rintro ⟨⟨_, content⟩, hLeaf, rfl⟩
    exact ⟨content, h.mem_leaves_iff.mp hLeaf⟩
  · rintro ⟨content, hAt⟩
    exact ⟨_, h.mem_leaves_iff.mpr hAt, rfl⟩

theorem pairwise_mergeSort_branches {entries : List (String × Tree α)}
    (hKeys : (entries.map (·.1)).Nodup) :
    ((entries.map branch).mergeSort fun a b => a.1 ≤ b.1).Pairwise
      fun a b => Text.BytesBefore a.1.toList b.1.toList := by
  have hTrans (a b c : String × List (List String × α)) (hab : decide (a.1 ≤ b.1) = true)
      (hbc : decide (b.1 ≤ c.1) = true) : decide (a.1 ≤ c.1) = true :=
    decide_eq_true (String.le_trans (of_decide_eq_true hab) (of_decide_eq_true hbc))
  have hTotal (a b : String × List (List String × α)) :
      (decide (a.1 ≤ b.1) || decide (b.1 ≤ a.1)) = true := by
    simpa using String.le_total a.1 b.1
  have hSorted := List.pairwise_mergeSort hTrans hTotal (entries.map branch)
  have hNodup := ((List.mergeSort_perm (entries.map branch) fun a b => a.1 ≤ b.1).map
    (·.1)).nodup_iff.mpr (by rwa [List.map_map])
  apply (hSorted.and (List.pairwise_map.mp hNodup)).imp
  rintro a b ⟨hLe, hne⟩
  exact Text.bytesBefore_of_le (of_decide_eq_true hLe) hne

/-- The leaves come in the order of their places. -/
theorem WellNamed.pairwise_leaves {t : Tree α} (h : t.WellNamed) :
    t.leaves.Pairwise fun l l' => PlaceBefore l.1 l'.1 := by
  induction h with
  | file content => exact List.pairwise_singleton _ _
  | link target => exact List.Pairwise.nil
  | @directory entries hKeys _ _ ih =>
    rw [leaves, branches_eq_map, List.pairwise_flatMap]
    constructor
    · intro b hb
      obtain ⟨e, he, rfl⟩ := List.mem_map.mp (List.mem_mergeSort.mp hb)
      exact List.pairwise_map.mpr ((ih e he).imp .cons)
    · apply (pairwise_mergeSort_branches hKeys).imp_of_mem
      intro a b ha hb hLess l hl l' hl'
      obtain ⟨e, -, rfl⟩ := List.mem_map.mp (List.mem_mergeSort.mp ha)
      obtain ⟨e', -, rfl⟩ := List.mem_map.mp (List.mem_mergeSort.mp hb)
      obtain ⟨_, -, rfl⟩ := List.mem_map.mp hl
      obtain ⟨_, -, rfl⟩ := List.mem_map.mp hl'
      exact .rel hLess

end Leaves

end Tree

end ShortNames
