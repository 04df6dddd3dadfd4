import ShortNames.Proofs.Lookups
import ShortNames.Tree

/-!
# Writing a file of a tree

A write puts new content at a place where a file stands. It changes what that place holds and
nothing else: every other place holds what it held, and the outline of the tree stays.
-/

namespace ShortNames

namespace Tree

variable {α : Type}

/-- What the file at a place holds; `none` where no file stands. -/
def content? (t : Tree α) (place : List String) : Option α :=
  match t.get? place with
  | some (.file content) => some content
  | _ => none

/-! ## Entries of a directory -/

@[simp] theorem lookup_outlineEntries (entries : List (String × Tree α)) (name : String) :
    (outlineEntries entries).lookup name = (entries.lookup name).map outline := by
  induction entries with
  | nil => rfl
  | cons entry rest ih =>
    obtain ⟨n, t⟩ := entry
    rw [outlineEntries, List.lookup_cons, List.lookup_cons, ih]
    cases name == n <;> rfl

@[simp] theorem get?_outline (t : Tree α) (place : List String) :
    t.outline.get? place = (t.get? place).map outline := by
  induction place generalizing t with
  | nil => rfl
  | cons name rest ih =>
    cases t with
    | file content => rfl
    | link target => rfl
    | directory entries =>
      rw [outline, get?, get?, entry?, entry?, lookup_outlineEntries]
      cases entries.lookup name with
      | none => rfl
      | some u => exact ih u

/-! ## Trees of one outline -/

section Outline

variable {t t' : Tree α}

theorem get?_of_outline_eq (h : t'.outline = t.outline) (place : List String) :
    (t'.get? place).map outline = (t.get? place).map outline := by
  rw [← get?_outline, ← get?_outline, h]

theorem exists_directory_of_outline {entries : List (String × Tree α)}
    (h : t'.outline = (directory entries).outline) :
    ∃ entries', t' = directory entries' ∧ outlineEntries entries' = outlineEntries entries := by
  cases t' with
  | file content => cases h
  | link target => cases h
  | directory entries' => exact ⟨entries', rfl, directory.inj h⟩

theorem eq_link_iff {x x' : Option (Tree α)} (h : x'.map outline = x.map outline)
    (target : String) : x' = some (link target) ↔ x = some (link target) := by
  have hLink (y : Option (Tree α)) :
      y = some (link target) ↔ y.map outline = some (link target) := by
    cases y with
    | none => simp
    | some t => cases t <;> simp [outline]
  rw [hLink, hLink, h]

theorem get?_directory_of_outline_eq (h : t'.outline = t.outline) {here : List String}
    {entries : List (String × Tree α)} (hAt : t.get? here = some (directory entries)) :
    ∃ entries', t'.get? here = some (directory entries') ∧
      ∀ name, (entries'.lookup name).map outline = (entries.lookup name).map outline := by
  have hSame := get?_of_outline_eq h here
  rw [hAt, Option.map_some] at hSame
  obtain ⟨u, hAt', hOutline⟩ := Option.map_eq_some_iff.mp hSame
  obtain ⟨entries', rfl, hEntries⟩ := exists_directory_of_outline hOutline
  refine ⟨entries', hAt', ?_⟩
  intro name
  rw [← lookup_outlineEntries, ← lookup_outlineEntries, hEntries]

end Outline

/-! ## Changing an entry -/

section AlterEntry

variable {f : Option (Tree α) → Option (Tree α)} {name : String} {t u : Tree α}
  {entries : List (String × Tree α)}

theorem lookup_alterEntry (hf : f (entries.lookup name) = some u) (n : String) :
    (alterEntry name f entries).lookup n = if n = name then some u else entries.lookup n := by
  induction entries with
  | nil =>
    have hNone : f none = some u := hf
    rw [alterEntry, hNone, Option.toList_some, List.map_singleton, lookup_cons]
  | cons entry rest ih =>
    obtain ⟨m, s⟩ := entry
    rw [lookup_cons] at hf
    rw [alterEntry, lookup_cons]
    by_cases hm : m = name
    · subst hm
      rw [if_pos rfl] at hf
      rw [if_pos rfl, hf, Option.toList_some, List.map_singleton, List.singleton_append,
        lookup_cons]
      split <;> rfl
    · rw [if_neg (Ne.symm hm)] at hf
      rw [if_neg hm, lookup_cons, ih hf]
      by_cases hn : n = m
      · rw [if_pos hn, if_pos hn, if_neg (hn ▸ hm)]
      · rw [if_neg hn, if_neg hn]

theorem outlineEntries_alterEntry (hAt : entries.lookup name = some t) (hf : f (some t) = some u)
    (hOutline : u.outline = t.outline) :
    outlineEntries (alterEntry name f entries) = outlineEntries entries := by
  induction entries with
  | nil => cases hAt
  | cons entry rest ih =>
    obtain ⟨m, s⟩ := entry
    rw [lookup_cons] at hAt
    rw [alterEntry]
    by_cases hm : m = name
    · subst hm
      obtain rfl := Option.some.inj ((if_pos rfl).symm.trans hAt)
      rw [if_pos rfl, hf, Option.toList_some, List.map_singleton, List.singleton_append,
        outlineEntries, outlineEntries, hOutline]
    · rw [if_neg (Ne.symm hm)] at hAt
      rw [if_neg hm, outlineEntries, outlineEntries, ih hAt]

end AlterEntry

/-! ## Putting a file at its place -/

@[simp] theorem alter_eq_some_put (t new : Tree α) (place : List String) :
    alter (fun _ => some new) place (some t) = some (t.put place new) := by
  cases place with
  | nil => rfl
  | cons name rest => cases t <;> rfl

theorem put_directory (entries : List (String × Tree α)) (name : String) (rest : List String)
    (new : Tree α) :
    (directory entries).put (name :: rest) new =
      directory (alterEntry name (alter (fun _ => some new) rest) entries) :=
  rfl

theorem content?_cons_eq {t : Tree α} {name : String} {rest : List String} :
    t.content? (name :: rest) = (t.entry? name).bind fun u => u.content? rest := by
  rw [content?, get?]
  cases t.entry? name <;> rfl

theorem content?_cons {t : Tree α} {name : String} {rest : List String} {c : α}
    (h : t.content? (name :: rest) = some c) :
    ∃ entries u, t = directory entries ∧ entries.lookup name = some u ∧
      u.content? rest = some c := by
  rw [content?_cons_eq, Option.bind_eq_some_iff] at h
  obtain ⟨u, hAt, hRest⟩ := h
  cases t with
  | file content => cases hAt
  | link target => cases hAt
  | directory entries => exact ⟨entries, u, rfl, hAt, hRest⟩

theorem content?_nil {t : Tree α} {c : α} (h : t.content? [] = some c) : t = file c := by
  cases t with
  | file content => exact congrArg file (Option.some.inj h)
  | link target => cases h
  | directory entries => cases h

theorem outline_put {t : Tree α} {place : List String} {old : α}
    (h : t.content? place = some old) (new : α) :
    (t.put place (.file new)).outline = t.outline := by
  induction place generalizing t with
  | nil =>
    rw [content?_nil h]
    rfl
  | cons name rest ih =>
    obtain ⟨entries, u, rfl, hAt, hOld⟩ := content?_cons h
    rw [put_directory, outline, outline,
      outlineEntries_alterEntry hAt (alter_eq_some_put u _ rest) (ih hOld)]

theorem content?_put {t : Tree α} {place : List String} {old : α}
    (h : t.content? place = some old) (new : α) (q : List String) :
    (t.put place (.file new)).content? q = if q = place then some new else t.content? q := by
  induction place generalizing t q with
  | nil =>
    obtain rfl := content?_nil h
    cases q with
    | nil => rfl
    | cons name rest => rfl
  | cons name rest ih =>
    obtain ⟨entries, u, rfl, hAt, hOld⟩ := content?_cons h
    rw [put_directory]
    cases q with
    | nil => rfl
    | cons n others =>
      have hEntry : alter (fun _ => some (file new)) rest (entries.lookup name) =
          some (u.put rest (file new)) := by
        rw [hAt, alter_eq_some_put]
      rw [content?_cons_eq, content?_cons_eq, entry?, entry?, lookup_alterEntry hEntry]
      by_cases hn : n = name
      · subst hn
        rw [if_pos rfl, hAt, Option.bind_some, Option.bind_some, ih hOld]
        simp only [List.cons.injEq, true_and]
      · have hOther : n :: others ≠ name :: rest := fun hSame => hn (List.cons.inj hSame).1
        rw [if_neg hn, if_neg hOther]

/-! ## Making what is not there yet -/

section Making

variable {t : Tree α} {place : List String}

@[simp] theorem content?_empty (q : List String) : (empty : Tree α).content? q = none := by
  cases q <;> rfl

/-- Directories that are made change what no file holds. -/
@[simp] theorem content?_makeDirectories (place : List String) (t : Tree α) (q : List String) :
    (makeDirectories place t).content? q = t.content? q := by
  induction place generalizing t q with
  | nil => rfl
  | cons name rest ih =>
    cases t with
    | file content => rfl
    | link target => rfl
    | directory entries =>
      cases q with
      | nil => rfl
      | cons n others =>
        rw [makeDirectories, content?_cons_eq, content?_cons_eq, entry?, entry?,
          lookup_alterEntry rfl]
        by_cases hn : n = name
        · subst hn
          rw [if_pos rfl, Option.bind_some, ih]
          cases entries.lookup n with
          | none => exact content?_empty others
          | some u => rfl
        · rw [if_neg hn]

/-- No file and no link is in the way to a place, and no directory stands at it. -/
def Admits (t : Tree α) : List String → Prop
  | [] => t.isDirectory = false
  | name :: rest => t.isDirectory = true ∧ ∀ u, t.entry? name = some u → u.Admits rest

theorem exists_entries (h : t.isDirectory = true) : ∃ entries, t = directory entries := by
  cases t with
  | file content => cases h
  | link target => cases h
  | directory entries => exact ⟨entries, rfl⟩

theorem content?_of_not_directory (h : t.isDirectory = false) {q : List String} (hq : q ≠ []) :
    t.content? q = none := by
  obtain ⟨n, others, rfl⟩ := List.exists_cons_of_ne_nil hq
  cases t with
  | file content => rfl
  | link target => rfl
  | directory entries => cases h

@[simp]
theorem entry?_put_singleton (entries : List (String × Tree α)) (name : String) (new : Tree α)
    (n : String) :
    entry? n ((directory entries).put [name] new) =
      if n = name then some new else entries.lookup n := by
  rw [put_directory, entry?]
  exact lookup_alterEntry rfl n

theorem entry?_put_makeDirectories (entries : List (String × Tree α)) (name m : String)
    (more : List String) (new : Tree α) (n : String) :
    entry? n ((makeDirectories (name :: m :: more).dropLast (directory entries)).put
        (name :: m :: more) new) =
      if n = name then
        some ((makeDirectories (m :: more).dropLast ((entries.lookup name).getD empty)).put
          (m :: more) new)
      else entries.lookup n := by
  rw [List.dropLast_cons_cons, makeDirectories, put_directory, entry?,
    lookup_alterEntry (by rw [lookup_alterEntry rfl, if_pos rfl, alter_eq_some_put]),
    lookup_alterEntry rfl]
  split <;> rfl

/-- What is made at a place, with the directories on the way to it, stands there, and every other
file holds what it held. -/
theorem content?_make (h : t.Admits place) {new : Tree α} (hNew : new.isDirectory = false)
    (q : List String) : ((makeDirectories place.dropLast t).put place new).content? q =
      if q = place then new.content? [] else t.content? q := by
  induction place generalizing t q with
  | nil =>
    by_cases hq : q = []
    · subst hq
      rfl
    · rw [if_neg hq, content?_of_not_directory h hq]
      exact content?_of_not_directory hNew hq
  | cons name rest ih =>
    obtain ⟨hDirectory, hEntry⟩ := h
    obtain ⟨entries, rfl⟩ := exists_entries hDirectory
    cases q with
    | nil => cases rest <;> rfl
    | cons n others =>
      rw [content?_cons_eq, content?_cons_eq, entry?]
      by_cases hn : n = name
      · subst hn
        simp only [List.cons.injEq, true_and]
        cases rest with
        | nil =>
          rw [List.dropLast_singleton, makeDirectories, entry?_put_singleton, if_pos rfl,
            Option.bind_some]
          by_cases hOthers : others = []
          · rw [if_pos hOthers, hOthers]
          · rw [if_neg hOthers, content?_of_not_directory hNew hOthers]
            cases hAt : entries.lookup n with
            | none => rfl
            | some u => exact (content?_of_not_directory (hEntry u hAt) hOthers).symm
        | cons m more =>
          rw [entry?_put_makeDirectories, if_pos rfl, Option.bind_some]
          -- On the way an entry that is missing is made as an empty directory.
          cases hAt : entries.lookup n with
          | none =>
            rw [Option.getD_none, ih ⟨rfl, by simp [empty, entry?]⟩, content?_empty,
              Option.bind_none]
          | some u =>
            rw [Option.getD_some, ih (hEntry u hAt), Option.bind_some]
      · rw [if_neg fun hSame => hn (List.cons.inj hSame).1]
        cases rest with
        | nil => simp [makeDirectories, hn]
        | cons m more => rw [entry?_put_makeDirectories, if_neg hn]

end Making

end Tree

end ShortNames
