import ShortNames.Proofs.Headers
import ShortNames.Proofs.Statements

/-!
# A header by its lines

What the package lines and the import lines of a file say, each line by itself: the first package
that is named, of the imports of one name the last, and the places of the lines.
-/

namespace ShortNames

namespace Declaration

def Import.declaration (m : Import) : Declaration :=
  ofPath m.isStatic m.path

theorem afterKeyword?_importKeyword {line rest : Text}
    (h : Text.afterKeyword? packageKeyword line = some rest) :
    Text.afterKeyword? importKeyword line = none := by
  obtain ⟨b, after, hLine, -⟩ := Text.afterKeyword?_isSome.mp (Option.isSome_of_mem h)
  rw [← Option.not_isSome_iff_eq_none, Text.afterKeyword?_isSome]
  rintro ⟨b', after', hLine', -⟩
  rw [hLine] at hLine'
  exact absurd (List.cons.inj hLine').1 (by decide)

/-- A header line is a package line or an import line, and not both. -/
theorem ofLine?_cases (line : Text) :
    (ofLine? line = none ∧ packageOf? line = none ∧ importOf? line = none) ∨
      (∃ name, ofLine? line = some (.package name) ∧ packageOf? line = some name ∧
        importOf? line = none) ∨
      ∃ m : Import, ofLine? line = some m.declaration ∧ packageOf? line = none ∧
        importOf? line = some m := by
  rw [ofLine?, packageOf?, importOf?]
  cases hPackage : Text.afterKeyword? packageKeyword line.trim with
  | some rest =>
    rw [afterKeyword?_importKeyword hPackage]
    exact .inr (.inl ⟨statement rest, rfl, rfl, rfl⟩)
  | none =>
    cases Text.afterKeyword? importKeyword line.trim with
    | none => exact .inl ⟨rfl, rfl, rfl⟩
    | some rest =>
      rw [Option.map_some, Option.map_some, ofImport]
      cases Text.afterKeyword? staticKeyword rest with
      | some path => exact .inr (.inr ⟨⟨true, statement path⟩, rfl, rfl, rfl⟩)
      | none => exact .inr (.inr ⟨⟨false, statement rest⟩, rfl, rfl, rfl⟩)

theorem isLine_iff {line : Text} :
    isLine line = true ↔ (∃ name, DeclaresPackage line name) ∨ IsImportLine line := by
  simp only [← packageOf?_eq_some_iff, ← isSome_importOf?, ← Option.isSome_iff_exists]
  rw [isLine]
  rcases ofLine?_cases line with ⟨hLine, hPackage, hImport⟩ | ⟨name, hLine, hPackage, hImport⟩ |
    ⟨m, hLine, hPackage, hImport⟩
  all_goals simp [hLine, hPackage, hImport]

theorem Import.declaration_of_suffix {isStatic : Bool} {base : Text} :
    Import.declaration ⟨isStatic, base ++ ['.', '*']⟩ =
      if isStatic = true ∨ base = [] then unbound else onDemand base := by
  have hStar : Text.withoutEnd? ['.', '*'] (base ++ ['.', '*']) = some base :=
    Text.withoutEnd?_eq_some_iff.mpr rfl
  simp [declaration, ofPath, hStar]

theorem Import.declaration_of_not_suffix {m : Import} (h : ¬ ['.', '*'] <:+ m.path) :
    m.declaration =
      if Binds m.path.lastSegment m.path then single m.path.lastSegment m.path
      else malformed m.path := by
  have hBinds : Binds m.path.lastSegment m.path ↔
      ¬ (m.path.lastSegment.isEmpty || !m.path.lastSegment.all Text.isIdentifier) = true := by
    simp [binds_iff, h]
  simp only [declaration, ofPath, withoutEnd?_of_not_suffix h, hBinds, ite_not]

/-- An import is on demand, or it binds the last segment of its path, or it says nothing about
type names. -/
theorem Import.declaration_cases (m : Import) :
    (∃ p, m.declaration = .onDemand p ∧ p ≠ [] ∧ m = ⟨false, p ++ ['.', '*']⟩) ∨
      (∃ x, m.declaration = .single x m.path ∧ Binds x m.path) ∨
      (m.declaration = .unbound ∨ ∃ path, m.declaration = .malformed path) ∧
        (∀ x, ¬ Binds x m.path) ∧ ∀ p, p ≠ [] → m ≠ ⟨false, p ++ ['.', '*']⟩ := by
  by_cases hSuffix : ['.', '*'] <:+ m.path
  · obtain ⟨isStatic, path⟩ := m
    obtain ⟨base, rfl⟩ := hSuffix
    rw [declaration_of_suffix]
    by_cases hNothing : isStatic = true ∨ base = []
    · refine .inr (.inr ⟨.inl (if_pos hNothing), ?_, ?_⟩)
      · intro x hBinds
        exact hBinds.single (List.suffix_append base _)
      · intro p hp hEq
        obtain ⟨rfl, hPath⟩ := Import.mk.inj hEq
        obtain rfl := List.append_cancel_right hPath
        exact hNothing.elim Bool.false_ne_true hp
    · obtain ⟨hStatic, hBase⟩ := not_or.mp hNothing
      rw [Bool.not_eq_true] at hStatic
      exact .inl ⟨base, if_neg hNothing, hBase, by rw [hStatic]⟩
  · rw [declaration_of_not_suffix hSuffix]
    by_cases hBinds : Binds m.path.lastSegment m.path
    · exact .inr (.inl ⟨m.path.lastSegment, if_pos hBinds, hBinds⟩)
    · refine .inr (.inr ⟨.inr ⟨m.path, if_neg hBinds⟩, ?_, ?_⟩)
      · intro x hx
        exact hBinds ((Text.lastSegment_eq_iff.mpr hx.name).symm ▸ hx)
      · rintro p - rfl
        exact hSuffix (List.suffix_append p _)

end Declaration

open Declaration

namespace NameTable

variable (t : NameTable) (m : Import)

theorem declare_package (name : Text) :
    (t.declare (.package name)).imports = t.imports ∧
      (t.declare (.package name)).onDemand = t.onDemand := by
  simp only [declare]
  split <;> exact ⟨rfl, rfl⟩

@[simp] theorem package_declare_import : (t.declare m.declaration).package = t.package := by
  rcases m.declaration_cases with ⟨p, hDeclares, -⟩ | ⟨x, hDeclares, -⟩ |
    ⟨hDeclares | ⟨path, hDeclares⟩, -⟩
  all_goals rw [hDeclares]; rfl

theorem imported?_declare_import (x : Text) :
    (t.declare m.declaration).imported? x =
      if Binds x m.path then some m.path else t.imported? x := by
  rcases m.declaration_cases with ⟨p, hDeclares, -, rfl⟩ | ⟨y, hDeclares, hBinds⟩ |
    ⟨hDeclares, hNone, -⟩
  · rw [hDeclares, if_neg fun hBinds => hBinds.single (List.suffix_append p _)]
    rfl
  · rw [hDeclares, declare, imported?, addImport, Bindings.get?_insert, ← imported?]
    by_cases hx : x = y
    · rw [if_pos hx, hx, if_pos hBinds]
    · rw [if_neg hx, if_neg fun hOther => hx (hOther.name_eq hBinds)]
  · rw [if_neg (hNone x)]
    rcases hDeclares with hDeclares | ⟨path, hDeclares⟩
    all_goals rw [hDeclares]; rfl

theorem hasOnDemand_declare_import (p : Text) :
    (t.declare m.declaration).hasOnDemand p = true ↔
      t.hasOnDemand p = true ∨ p ≠ [] ∧ m = ⟨false, p ++ ['.', '*']⟩ := by
  simp only [hasOnDemand, List.contains_iff_mem]
  rcases m.declaration_cases with ⟨q, hDeclares, hq, rfl⟩ | ⟨x, hDeclares, hBinds⟩ |
    ⟨hDeclares, -, hNone⟩
  · rw [hDeclares, declare, addOnDemand, List.mem_insert_iff, or_comm]
    apply or_congr_right
    constructor
    · rintro rfl
      exact ⟨hq, rfl⟩
    · rintro ⟨-, hEq⟩
      exact (List.append_cancel_right (Import.mk.inj hEq).2).symm
  · rw [hDeclares, declare, addImport, iff_self_or]
    rintro ⟨-, rfl⟩
    exact absurd (List.suffix_append p _) hBinds.single
  · have hSame : (t.declare m.declaration).onDemand = t.onDemand := by
      rcases hDeclares with hDeclares | ⟨path, hDeclares⟩
      all_goals rw [hDeclares]; rfl
    rw [hSame, iff_self_or]
    rintro ⟨hp, hEq⟩
    exact absurd hEq (hNone p hp)

end NameTable

namespace Header

section Places

variable {p : Text → Prop} {lines before after : List Text} {line l : Text} {i : ℕ}

/-- `line` is the first of the `lines` with the property `p`, and stands at `i`. -/
def IsFirst (p : Text → Prop) (lines : List Text) (i : ℕ) (line : Text) : Prop :=
  ∃ before after, lines = before ++ line :: after ∧ before.length = i ∧ p line ∧
    ∀ l ∈ before, ¬ p l

/-- `line` is the last of the `lines` with the property `p`, and stands at `i`. -/
def IsLast (p : Text → Prop) (lines : List Text) (i : ℕ) (line : Text) : Prop :=
  ∃ before after, lines = before ++ line :: after ∧ before.length = i ∧ p line ∧
    ∀ l ∈ after, ¬ p l

theorem concat_eq_append_cons_iff : lines ++ [line] = before ++ l :: after ↔
    (after = [] ∧ before = lines ∧ l = line) ∨
      ∃ rest, after = rest ++ [line] ∧ lines = before ++ l :: rest := by
  constructor
  · intro h
    rcases after.eq_nil_or_concat' with rfl | ⟨rest, m, rfl⟩
    · obtain ⟨hLines, hLast⟩ := List.append_inj' h rfl
      exact .inl ⟨rfl, hLines.symm, (List.singleton_inj.mp hLast).symm⟩
    · rw [← List.cons_append, ← List.append_assoc] at h
      obtain ⟨hLines, hLast⟩ := List.append_inj' h rfl
      exact .inr ⟨rest, by rw [List.singleton_inj.mp hLast], hLines⟩
  · rintro (⟨rfl, rfl, rfl⟩ | ⟨rest, rfl, rfl⟩)
    · rfl
    · rw [List.append_assoc, List.cons_append]

theorem isLast_concat_of_pos (h : p line) :
    IsLast p (lines ++ [line]) i l ↔ i = lines.length ∧ l = line := by
  constructor
  · rintro ⟨before, after, hLines, rfl, -, hAfter⟩
    rcases concat_eq_append_cons_iff.mp hLines with ⟨-, rfl, rfl⟩ | ⟨rest, rfl, -⟩
    · exact ⟨rfl, rfl⟩
    · exact absurd h (hAfter line List.mem_concat_self)
  · rintro ⟨rfl, rfl⟩
    exact ⟨lines, [], rfl, rfl, h, by simp⟩

theorem isLast_concat_of_neg (h : ¬ p line) :
    IsLast p (lines ++ [line]) i l ↔ IsLast p lines i l := by
  constructor
  · rintro ⟨before, after, hLines, rfl, hl, hAfter⟩
    rcases concat_eq_append_cons_iff.mp hLines with ⟨-, -, rfl⟩ | ⟨rest, rfl, rfl⟩
    · exact absurd hl h
    · exact ⟨before, rest, rfl, rfl, hl, fun m hm => hAfter m (List.mem_append_left _ hm)⟩
  · rintro ⟨before, after, rfl, rfl, hl, hAfter⟩
    refine ⟨before, after ++ [line], by simp, rfl, hl, ?_⟩
    exact List.forall_mem_append.mpr ⟨hAfter, List.forall_mem_singleton.mpr h⟩

theorem IsFirst.append (h : IsFirst p lines i l) (rest : List Text) :
    IsFirst p (lines ++ rest) i l := by
  obtain ⟨before, after, rfl, hi, hl, hBefore⟩ := h
  exact ⟨before, after ++ rest, by simp, hi, hl, hBefore⟩

variable [DecidablePred p]

/-- The numbers of the lines with the property `p`. -/
def places (p : Text → Prop) [DecidablePred p] (lines : List Text) : List ℕ :=
  (lines.zipIdx.filter fun e => p e.1).map (·.2)

@[simp] theorem places_concat (lines : List Text) (line : Text) :
    places p (lines ++ [line]) = places p lines ++ if p line then [lines.length] else [] := by
  rw [places, List.zipIdx_append, List.filter_append, List.map_append, ← places]
  by_cases hLine : p line <;> simp [hLine]

@[simp] theorem places_eq_nil_iff : places p lines = [] ↔ ∀ l ∈ lines, ¬ p l := by
  induction lines using List.reverseRecOn with
  | nil => exact iff_of_true rfl (by simp)
  | append_singleton lines line ih =>
    by_cases hLine : p line <;> simp [hLine, ih, or_imp, forall_and]

theorem exists_isFirst (h : (places p lines).head? = some i) : ∃ line, IsFirst p lines i line := by
  induction lines using List.reverseRecOn with
  | nil => cases h
  | append_singleton lines line ih =>
    rw [places_concat, List.head?_append] at h
    cases hHead : (places p lines).head? with
    | some j =>
      rw [hHead, Option.some_or] at h
      obtain ⟨first, hFirst⟩ := ih (hHead.trans h)
      exact ⟨first, hFirst.append [line]⟩
    | none =>
      have hNone := places_eq_nil_iff.mp (List.head?_eq_none_iff.mp hHead)
      rw [hHead, Option.none_or] at h
      split at h
      · cases h
        exact ⟨line, lines, [], rfl, rfl, ‹_›, hNone⟩
      · cases h

theorem exists_isLast (h : (places p lines).getLast? = some i) :
    ∃ line, IsLast p lines i line := by
  induction lines using List.reverseRecOn with
  | nil => cases h
  | append_singleton lines line ih =>
    rw [places_concat, List.getLast?_append] at h
    by_cases hLine : p line
    · rw [if_pos hLine] at h
      cases h
      exact ⟨line, (isLast_concat_of_pos hLine).mpr ⟨rfl, rfl⟩⟩
    · rw [if_neg hLine] at h
      obtain ⟨last, hLast⟩ := ih h
      exact ⟨last, (isLast_concat_of_neg hLine).mpr hLast⟩

end Places

theorem names_concat (lines : List Text) (line : Text) :
    (ofLines (lines ++ [line])).names =
      match ofLine? line with
      | some d => (ofLines lines).names.declare d
      | none => (ofLines lines).names := by
  rw [names_ofLines, List.filterMap_append, List.foldl_append, ← names_ofLines]
  cases hLine : ofLine? line <;> simp [hLine]

theorem package_ofLines (lines : List Text) :
    (ofLines lines).names.package = (lines.filterMap packageOf?).find? (· ≠ []) := by
  induction lines using List.reverseRecOn with
  | nil => rfl
  | append_singleton lines line ih =>
    rw [names_concat, List.filterMap_append, List.find?_append, ← ih]
    rcases ofLine?_cases line with ⟨hLine, hPackage, -⟩ | ⟨name, hLine, hPackage, -⟩ |
      ⟨m, hLine, hPackage, -⟩
    · simp [hLine, hPackage]
    · rw [hLine]
      cases name with
      | nil => simp [NameTable.declare, hPackage]
      | cons c name => simp [NameTable.declare, NameTable.declarePackage, hPackage]
    · simp [hLine, hPackage]

theorem package_eq_some_iff (lines : List Text) (name : Text) :
    (ofLines lines).names.package = some name ↔
      ∃ i line, IsFirst NamesPackage lines i line ∧ DeclaresPackage line name := by
  rw [package_ofLines, List.find?_filterMap, Option.bind_eq_some_iff]
  simp only [List.find?_eq_some_iff_append, Bool.not_eq_true', ← Bool.not_eq_true, any_packageOf?,
    packageOf?_eq_some_iff]
  constructor
  · rintro ⟨line, ⟨hLine, before, after, hLines, hBefore⟩, hName⟩
    exact ⟨before.length, line, ⟨before, after, hLines, rfl, hLine, hBefore⟩, hName⟩
  · rintro ⟨i, line, ⟨before, after, hLines, -, hLine, hBefore⟩, hName⟩
    exact ⟨line, ⟨hLine, before, after, hLines, hBefore⟩, hName⟩

theorem imported?_eq_some_iff (lines : List Text) (x path : Text) :
    (ofLines lines).names.imported? x = some path ↔ ∃ i line, IsLast (BindsName x) lines i line ∧
      ∃ isStatic, DeclaresImport line ⟨isStatic, path⟩ := by
  induction lines using List.reverseRecOn with
  | nil =>
    constructor
    · intro h
      cases h
    · rintro ⟨i, line, ⟨before, after, hLines, -⟩, -⟩
      cases before <;> cases hLines
  | append_singleton lines line ih =>
    rw [names_concat]
    rcases ofLine?_cases line with ⟨hLine, -, hImport⟩ | ⟨name, hLine, -, hImport⟩ |
      ⟨m, hLine, -, hImport⟩
    · have hNot : ¬ BindsName x line := by simp [← any_importOf?, hImport]
      simp only [hLine, isLast_concat_of_neg hNot, ih]
    · have hNot : ¬ BindsName x line := by simp [← any_importOf?, hImport]
      have hSame := ((ofLines lines).names.declare_package name).1
      rw [hLine, NameTable.imported?, hSame, ← NameTable.imported?]
      simp only [isLast_concat_of_neg hNot, ih]
    · simp only [hLine, NameTable.imported?_declare_import]
      have hBindsName : BindsName x line ↔ Binds x m.path := by simp [← any_importOf?, hImport]
      by_cases hBinds : Binds x m.path
      · rw [if_pos hBinds, Option.some.injEq]
        simp only [isLast_concat_of_pos (hBindsName.mpr hBinds)]
        constructor
        · rintro rfl
          exact ⟨_, line, ⟨rfl, rfl⟩, m.isStatic, importOf?_eq_some_iff.mp hImport⟩
        · rintro ⟨i, l, ⟨-, rfl⟩, isStatic, hDeclares⟩
          cases hImport.symm.trans (importOf?_eq_some_iff.mpr hDeclares)
          rfl
      · rw [if_neg hBinds]
        simp only [isLast_concat_of_neg (mt hBindsName.mp hBinds), ih]

theorem hasOnDemand_ofLines (lines : List Text) (p : Text) :
    (ofLines lines).names.hasOnDemand p = true ↔
      p ≠ [] ∧ ∃ line ∈ lines, DeclaresImport line ⟨false, p ++ ['.', '*']⟩ := by
  induction lines using List.reverseRecOn with
  | nil =>
    constructor
    · intro h
      cases h
    · rintro ⟨-, line, hLine, -⟩
      cases hLine
  | append_singleton lines line ih =>
    simp only [List.mem_append, List.mem_singleton, or_and_right, exists_or, exists_eq_left]
    rw [names_concat, and_or_left, ← ih, ← importOf?_eq_some_iff]
    rcases ofLine?_cases line with ⟨hLine, -, hImport⟩ | ⟨name, hLine, -, hImport⟩ |
      ⟨m, hLine, -, hImport⟩
    · simp [hLine, hImport]
    · have hSame := ((ofLines lines).names.declare_package name).2
      simp [hLine, hImport, NameTable.hasOnDemand, hSame]
    · rw [hLine, hImport, Option.some.injEq]
      exact NameTable.hasOnDemand_declare_import _ m p

theorem lastImportAt_declare_import (h : Header) (i : Nat) (m : Import) :
    (h.declare i m.declaration).lastImportAt = some i ∧
      (h.declare i m.declaration).packageAt = h.packageAt := by
  rcases m.declaration_cases with ⟨p, hDeclares, -⟩ | ⟨x, hDeclares, -⟩ |
    ⟨hDeclares | ⟨path, hDeclares⟩, -⟩
  all_goals rw [hDeclares]; exact ⟨rfl, rfl⟩

theorem lastImportAt_ofLines (lines : List Text) :
    (ofLines lines).lastImportAt = (places IsImportLine lines).getLast? := by
  induction lines using List.reverseRecOn with
  | nil => rfl
  | append_singleton lines line ih =>
    rw [ofLines_concat, places_concat, List.getLast?_append, ← ih]
    rcases ofLine?_cases line with ⟨hLine, -, hImport⟩ | ⟨name, hLine, -, hImport⟩ |
      ⟨m, hLine, -, hImport⟩
    · simp [hLine, hImport, ← isSome_importOf?]
    · simp [hLine, hImport, ← isSome_importOf?, lastImportAt_declare_package]
    · simp [hLine, hImport, ← isSome_importOf?, lastImportAt_declare_import]

theorem packageAt_ofLines (lines : List Text) :
    (ofLines lines).packageAt = (places NamesPackage lines).head? := by
  induction lines using List.reverseRecOn with
  | nil => rfl
  | append_singleton lines line ih =>
    rw [ofLines_concat, places_concat, List.head?_append, ← ih]
    rcases ofLine?_cases line with ⟨hLine, hPackage, -⟩ | ⟨name, hLine, hPackage, -⟩ |
      ⟨m, hLine, hPackage, -⟩
    · simp [hLine, hPackage, ← any_packageOf?]
    · rw [hLine]
      cases name with
      | nil => simp [declare, hPackage, ← any_packageOf?]
      | cons c name =>
        cases hAt : (ofLines lines).packageAt <;>
          simp [declare, hAt, hPackage, ← any_packageOf?]
    · simp [hLine, hPackage, ← any_packageOf?, lastImportAt_declare_import]

theorem moves_congr {h h' : Header} (hPackage : h.packageAt.isSome = h'.packageAt.isSome)
    (hLast : h.lastImportAt.isSome = h'.lastImportAt.isSome) (d : Declaration) :
    h.moves d = h'.moves d := by
  cases d with
  | package name => rw [moves, moves, hPackage, hLast]
  | _ => rfl

@[simp] theorem names_filter (lines : List Text) :
    (ofLines (lines.filter isLine)).names = (ofLines lines).names := by
  rw [names_ofLines, names_ofLines, List.filterMap_filter]
  congr 2
  funext line
  rw [isLine]
  cases ofLine? line <;> rfl

theorem isSome_lastImportAt_iff (lines : List Text) :
    (ofLines lines).lastImportAt.isSome = true ↔ ∃ l ∈ lines, IsImportLine l := by
  rw [lastImportAt_ofLines, List.getLast?_isSome, ne_eq, places_eq_nil_iff]
  push Not
  rfl

theorem isSome_lastImportAt_filter (lines : List Text) :
    (ofLines (lines.filter isLine)).lastImportAt.isSome = (ofLines lines).lastImportAt.isSome := by
  rw [Bool.eq_iff_iff, isSome_lastImportAt_iff, isSome_lastImportAt_iff]
  constructor
  · rintro ⟨l, hl, hImport⟩
    exact ⟨l, List.mem_of_mem_filter hl, hImport⟩
  · rintro ⟨l, hl, hImport⟩
    exact ⟨l, List.mem_filter.mpr ⟨hl, isLine_iff.mpr (.inr hImport)⟩, hImport⟩

/-- Between the header lines nothing counts: the place of new imports is behind the same header
line, however many other lines stand among them. -/
theorem filter_take_insertAt (lines : List Text) :
    (lines.take (ofLines lines).insertAt).filter isLine =
      (lines.filter isLine).take (ofLines (lines.filter isLine)).insertAt := by
  induction lines using List.reverseRecOn with
  | nil => rfl
  | append_singleton lines line ih =>
    have hLength := insertAt_le_length lines
    have hLength' := insertAt_le_length (lines.filter isLine)
    rw [List.filter_append, ofLines_concat]
    cases hLine : ofLine? line with
    | none =>
      have hNone : [line].filter isLine = [] := by simp [isLine, hLine]
      rw [hNone, List.append_nil, List.take_append_of_le_length hLength, ih]
    | some d =>
      have hSome : [line].filter isLine = [line] := by simp [isLine, hLine]
      have hMoves : (ofLines (lines.filter isLine)).moves d = (ofLines lines).moves d :=
        moves_congr (by rw [isSome_packageAt, isSome_packageAt, names_filter])
          (isSome_lastImportAt_filter lines) d
      rw [hSome, ofLines_concat, hLine]
      simp only [insertAt_declare_eq, hMoves]
      cases (ofLines lines).moves d with
      | true =>
        rw [if_pos rfl, if_pos rfl, List.take_of_length_le (by simp),
          List.take_of_length_le (by simp), List.filter_append, hSome]
      | false =>
        rw [if_neg Bool.false_ne_true, if_neg Bool.false_ne_true,
          List.take_append_of_le_length hLength, List.take_append_of_le_length hLength', ih]

theorem ofLines_eq_of_zipIdx {lines lines' : List Text}
    (h : lines'.zipIdx.filter (fun e => isLine e.1) = lines.zipIdx.filter fun e => isLine e.1) :
    ofLines lines' = ofLines lines := by
  have hFilter (lines : List Text) : declarations lines =
      (lines.zipIdx.filter fun e => isLine e.1).filterMap fun e =>
        (ofLine? e.1).map fun d => (e.2, d) := by
    rw [declarations, List.filterMap_filter]
    congr 1
    funext e
    cases hLine : ofLine? e.1 <;> simp [isLine, hLine]
  rw [ofLines, hFilter, h, ← hFilter, ofLines]

/-- Where new imports go. -/
inductive InsertPlace (lines : List Text) : ℕ → Prop
  | behindImport {i : ℕ} {line : Text} (hLast : IsLast IsImportLine lines i line) :
    InsertPlace lines (i + 1)
  | behindPackage {i : ℕ} {line : Text} (hImport : ∀ l ∈ lines, ¬ IsImportLine l)
    (hFirst : IsFirst NamesPackage lines i line) : InsertPlace lines (i + 1)
  | top (hImport : ∀ l ∈ lines, ¬ IsImportLine l) (hPackage : ∀ l ∈ lines, ¬ NamesPackage l) :
    InsertPlace lines 0

theorem insertPlace_insertAt (lines : List Text) : InsertPlace lines (ofLines lines).insertAt := by
  rw [insertAt, lastImportAt_ofLines, packageAt_ofLines]
  cases hLast : (places IsImportLine lines).getLast? with
  | some i =>
    obtain ⟨line, hImport⟩ := exists_isLast hLast
    exact .behindImport hImport
  | none =>
    have hNone := places_eq_nil_iff.mp (List.getLast?_eq_none_iff.mp hLast)
    cases hFirst : (places NamesPackage lines).head? with
    | some i =>
      obtain ⟨line, hPackage⟩ := exists_isFirst hFirst
      exact .behindPackage hNone hPackage
    | none => exact .top hNone (places_eq_nil_iff.mp (List.head?_eq_none_iff.mp hFirst))

/-- What a header says is what its lines say one by one: the package is the first that is named, a
simple name stands for the path of the last import that binds it, and new imports go behind the
last of the import lines, else behind the line of the package, else to the top. Lines that are no
header lines only move the others. -/
theorem ofLines_by_statements (lines : List Text) :
    (∀ name, (ofLines lines).names.package = some name ↔
      ∃ i line, IsFirst NamesPackage lines i line ∧ DeclaresPackage line name) ∧
    (∀ x path, (ofLines lines).names.imported? x = some path ↔
      ∃ i line, IsLast (BindsName x) lines i line ∧
        ∃ isStatic, DeclaresImport line ⟨isStatic, path⟩) ∧
    (∀ p, (ofLines lines).names.hasOnDemand p = true ↔
      p ≠ [] ∧ ∃ line ∈ lines, DeclaresImport line ⟨false, p ++ ['.', '*']⟩) ∧
    InsertPlace lines (ofLines lines).insertAt ∧ (ofLines lines).insertAt ≤ lines.length ∧
    (∀ line, isLine line = true ↔ (∃ name, DeclaresPackage line name) ∨ IsImportLine line) ∧
    (∀ lines', lines'.filter isLine = lines.filter isLine →
      (ofLines lines').names = (ofLines lines).names ∧
        (lines'.take (ofLines lines').insertAt).filter isLine =
          (lines.take (ofLines lines).insertAt).filter isLine) ∧
    ∀ lines', lines'.zipIdx.filter (fun e => isLine e.1) =
        lines.zipIdx.filter (fun e => isLine e.1) →
      ofLines lines' = ofLines lines := by
  refine ⟨package_eq_some_iff lines, imported?_eq_some_iff lines, hasOnDemand_ofLines lines,
    insertPlace_insertAt lines, insertAt_le_length lines, fun line => isLine_iff, ?_,
    fun lines' => ofLines_eq_of_zipIdx⟩
  intro lines' hFilter
  constructor
  · rw [← names_filter, hFilter, names_filter]
  · rw [filter_take_insertAt, filter_take_insertAt, hFilter]

/-- The first package line names nothing, two imports bind `F`, and the last import binds nothing.
A comment among them changes no name. -/
theorem ofLines_by_statements_of_comment :
    let lines := ["package ;".toList, " package a.b; // c".toList, "import e.F;".toList,
      "import static\tg.F ;".toList, "import f.*".toList, "import ;".toList]
    let lines' := lines.take 2 ++ "// c".toList :: lines.drop 2
    (ofLines lines).names.package = some "a.b".toList ∧
      (ofLines lines).names.imported? ['F'] = some "g.F".toList ∧
      (ofLines lines).names.hasOnDemand ['f'] = true ∧
      InsertPlace lines 6 ∧
      lines'.filter isLine = lines.filter isLine ∧
      (ofLines lines').names = (ofLines lines).names := by
  intro lines lines'
  obtain ⟨hPackage, hImported, hOnDemand, hPlace, -, -, hMoved, -⟩ := ofLines_by_statements lines
  have hInsertAt : (ofLines lines).insertAt = 6 := by decide +kernel
  rw [hInsertAt] at hPlace
  have hFirst : IsFirst NamesPackage lines 1 " package a.b; // c".toList :=
    ⟨lines.take 1, lines.drop 2, rfl, rfl, by decide +kernel, by decide +kernel⟩
  have hLast : IsLast (BindsName ['F']) lines 3 "import static\tg.F ;".toList :=
    ⟨lines.take 3, lines.drop 4, rfl, rfl, by decide +kernel, by decide +kernel⟩
  have hFilter : lines'.filter isLine = lines.filter isLine := by decide +kernel
  refine ⟨(hPackage _).mpr ⟨1, _, hFirst, by decide +kernel⟩,
    (hImported _ _).mpr ⟨3, _, hLast, true, by decide +kernel⟩,
    (hOnDemand _).mpr ⟨by decide, "import f.*".toList, by decide +kernel, by decide +kernel⟩,
    hPlace, hFilter, (hMoved lines' hFilter).1⟩

end Header

end ShortNames
