import ShortNames.Proofs.Lookups
import ShortNames.Proofs.QualifiedNames
import ShortNames.Proofs.Texts
import ShortNames.Revision

/-!
# Headers with more imports

A printed import reads back as the import it was printed from. Behind the place where imports are
inserted a file only repeats its package, so a block of new imports there adds its own bindings to
the names of the header and changes nothing else.
-/

namespace ShortNames

def Line.bodies (source : Text) : List Text :=
  (split source).map body

def Header.ofText (source : Text) : Header :=
  ofLines (Line.bodies source)

namespace QualifiedName

theorem WellFormed.solid {q : QualifiedName} (hq : q.WellFormed) : q.text.IsSolid := by
  intro c hc
  have hChain := hq.chain c hc
  rw [isChainPart, Bool.or_eq_true] at hChain
  rcases hChain with hWord | hDot
  · exact isBlank_eq_false_of_isWordPart hWord
  · rw [beq_iff_eq.mp hDot]
    decide

theorem WellFormed.not_mem_text {q : QualifiedName} (hq : q.WellFormed) {c : Char}
    (hc : isChainPart c = false) : c ∉ q.text := by
  intro hMem
  rw [hq.chain c hMem] at hc
  cases hc

end QualifiedName

namespace Declaration

theorem statement_text {q : QualifiedName} (hq : q.WellFormed) :
    statement (q.text ++ [';']) = q.text := by
  have hMarks : '/' ∉ q.text ++ [';'] := by
    rw [List.mem_append, not_or]
    exact ⟨hq.not_mem_text rfl, by decide⟩
  obtain ⟨c, w, hText, hStart⟩ := hq.exists_text_cons
  have hc := QualifiedName.isBlank_eq_false_of_isWordPart
    (QualifiedName.isWordPart_of_isWordStart hStart)
  have hTrim : Text.trim (q.text ++ [';']) = q.text ++ [';'] := by
    rw [hText, Text.trim_eq_self hc (by decide)]
  rw [statement, Text.before_of_not_mem hMarks, hTrim, Text.withoutEnd?_eq_some_iff.mpr rfl,
    Option.getD_some, Text.trim_of_solid hq.solid]

theorem ofPath_text {q : QualifiedName} (hq : q.WellFormed) :
    ofPath false q.text = .single q.name q.text := by
  have hStar : Text.withoutEnd? ['.', '*'] q.text = none := by
    rw [← Option.not_isSome_iff_eq_none, Option.isSome_iff_exists]
    rintro ⟨base, hBase⟩
    rw [Text.withoutEnd?_eq_some_iff] at hBase
    exact hq.not_mem_text (c := '*') rfl (hBase ▸ by simp)
  have hIdentifier : q.name.all Text.isIdentifier = true :=
    List.all_eq_true.mpr fun c hc =>
      QualifiedName.isIdentifier_of_isWordPart (hq.name.word c hc)
  rw [ofPath, hStar]
  simp [hq.lastSegment_text, hIdentifier, hq.name.ne_nil]

theorem ofLine?_importLine {q : QualifiedName} (hq : q.WellFormed) :
    ofLine? (importLine q.text) = some (.single q.name q.text) := by
  have hTrim : Text.trim (importLine q.text) = importKeyword ++ ' ' :: (q.text ++ [';']) := by
    have hLine : importLine q.text = 'i' :: ("mport ".toList ++ q.text) ++ [';'] := rfl
    rw [hLine, Text.trim_eq_self (by decide) (by decide)]
    simp [importKeyword]
  have hPackage :
      Text.afterKeyword? packageKeyword (importKeyword ++ ' ' :: (q.text ++ [';'])) = none := by
    rw [← Option.not_isSome_iff_eq_none, Text.afterKeyword?_isSome]
    rintro ⟨b, rest, hEq, -⟩
    exact absurd (List.cons.inj hEq).1 (by decide)
  have hSolid : Text.IsSolid (q.text ++ [';']) := by
    intro c hc
    rcases List.mem_append.mp hc with hc | hc
    · exact hq.solid c hc
    · rw [List.mem_singleton.mp hc]
      decide
  have hStart : Text.trimStart (q.text ++ [';']) = q.text ++ [';'] := by
    obtain ⟨c, w, hText, -⟩ := hq.exists_text_cons
    rw [hText, List.cons_append, Text.trimStart_cons, if_neg]
    rw [hq.solid c (hText ▸ List.mem_cons_self)]
    decide
  rw [ofLine?, hTrim, hPackage, Text.afterKeyword?_append (by decide), hStart, Option.map_some,
    ofImport, Text.afterKeyword?_of_solid hSolid, statement_text hq, ofPath_text hq]

/-- A carriage return at the end of a line says nothing about its declaration. -/
@[simp] theorem ofLine?_concat_cr (body : Text) : ofLine? (body ++ ['\r']) = ofLine? body := by
  rw [ofLine?, Text.trim_concat_of_blank (by decide), ofLine?]

end Declaration

namespace Bindings

@[simp] theorem get?_cons (name path : Text) (b : Bindings) (x : Text) :
    Bindings.get? ((name, path) :: b) x = if x = name then some path else b.get? x :=
  lookup_cons name path b x

theorem get?_eq_none {b : Bindings} {x : Text} (hx : x ∉ b.map (·.1)) : b.get? x = none :=
  lookup_eq_none_iff_keys.mpr hx

theorem get?_eq_some_iff {b : Bindings} (hb : (b.map (·.1)).Nodup) {x path : Text} :
    b.get? x = some path ↔ (x, path) ∈ b :=
  lookup_eq_some_iff_mem hb

theorem get?_eq_of_perm {b b' : Bindings} (hPerm : b.Perm b') (hb : (b.map (·.1)).Nodup)
    (x : Text) : b.get? x = b'.get? x := by
  have hb' := (hPerm.map (·.1)).nodup_iff.mp hb
  apply Option.ext
  intro path
  rw [get?_eq_some_iff hb, get?_eq_some_iff hb', hPerm.mem_iff]

end Bindings

namespace NameTable

def declare (t : NameTable) : Declaration → NameTable
  | .package name => if name.isEmpty then t else t.declarePackage name
  | .single name path => t.addImport name path
  | .onDemand package => t.addOnDemand package
  | .unbound | .malformed _ => t

def addImports (t : NameTable) (b : Bindings) : NameTable :=
  b.foldl (fun t p => t.addImport p.1 p.2) t

theorem declare_addImports_package (t : NameTable) (b : Bindings) (name : Text) :
    (t.addImports b).declare (.package name) = (t.declare (.package name)).addImports b := by
  induction b generalizing t with
  | nil => rfl
  | cons p b ih =>
    refine (ih _).trans (congrArg (addImports · b) ?_)
    simp only [declare]
    split <;> rfl

theorem foldl_declare_addImports (t : NameTable) (b : Bindings) {ds : List Declaration}
    (hds : ∀ d ∈ ds, ∃ name, d = .package name) :
    ds.foldl declare (t.addImports b) = (ds.foldl declare t).addImports b := by
  induction ds generalizing t with
  | nil => rfl
  | cons d ds ih =>
    obtain ⟨name, rfl⟩ := hds d List.mem_cons_self
    rw [List.foldl_cons, declare_addImports_package,
      ih _ fun d hd => hds d (List.mem_cons_of_mem _ hd), List.foldl_cons]

theorem foldl_declare_single (t : NameTable) (b : Bindings) :
    (b.map fun p => Declaration.single p.1 p.2).foldl declare t = t.addImports b := by
  rw [List.foldl_map]
  rfl

theorem foldl_declare_claims (t : NameTable) (ds : List Declaration) :
    (ds.foldl declare t).staged = t.staged ∧ (ds.foldl declare t).covered = t.covered ∧
      (ds.foldl declare t).bare = t.bare := by
  induction ds generalizing t with
  | nil => exact ⟨rfl, rfl, rfl⟩
  | cons d ds ih =>
    obtain ⟨hStaged, hCovered, hBare⟩ := ih (t.declare d)
    rw [List.foldl_cons, hStaged, hCovered, hBare]
    cases d with
    | package name =>
      simp only [declare]
      split <;> exact ⟨rfl, rfl, rfl⟩
    | _ => exact ⟨rfl, rfl, rfl⟩

theorem onDemand_of_soleOnDemand? {t : NameTable} {package : Text}
    (h : t.soleOnDemand? = some package) : t.onDemand = [package] := by
  unfold soleOnDemand? at h
  split at h
  · rename_i hOne
    rw [hOne, Option.some.inj h]
  · cases h

section AddImports

variable (t : NameTable) (b : Bindings)

@[simp] theorem package_addImports : (t.addImports b).package = t.package := by
  induction b generalizing t with
  | nil => rfl
  | cons p b ih => exact ih _

@[simp] theorem onDemand_addImports : (t.addImports b).onDemand = t.onDemand := by
  induction b generalizing t with
  | nil => rfl
  | cons p b ih => exact ih _

@[simp] theorem soleOnDemand?_addImports : (t.addImports b).soleOnDemand? = t.soleOnDemand? := by
  simp [soleOnDemand?]

theorem imported?_addImports {b : Bindings} (hb : (b.map (·.1)).Nodup) (x : Text) :
    (t.addImports b).imported? x = (b.get? x).or (t.imported? x) := by
  induction b generalizing t with
  | nil => rfl
  | cons p b ih =>
    obtain ⟨name, path⟩ := p
    rw [List.map_cons, List.nodup_cons] at hb
    refine (ih (t.addImport name path) hb.2).trans ?_
    rw [imported?, addImport, Bindings.get?_insert, Bindings.get?_cons, ← imported?]
    by_cases hx : x = name
    · subst hx
      rw [if_pos rfl, if_pos rfl, Bindings.get?_eq_none hb.1, Option.none_or, Option.some_or]
    · rw [if_neg hx, if_neg hx]

end AddImports

end NameTable

namespace Header

theorem ofLines_concat (lines : List Text) (line : Text) :
    ofLines (lines ++ [line]) =
      match Declaration.ofLine? line with
      | some d => (ofLines lines).declare lines.length d
      | none => ofLines lines := by
  unfold ofLines declarations
  rw [List.zipIdx_append, List.filterMap_append, List.foldl_append]
  cases hLine : Declaration.ofLine? line <;> simp [hLine]

/-- The package counts once: it is declared exactly if the table holds one. -/
theorem isSome_packageAt (lines : List Text) :
    (ofLines lines).packageAt.isSome = (ofLines lines).names.package.isSome := by
  induction lines using List.reverseRecOn with
  | nil => rfl
  | append_singleton lines line ih =>
    rw [ofLines_concat]
    cases Declaration.ofLine? line with
    | none => exact ih
    | some d =>
      cases d with
      | package name =>
        simp only [declare]
        split
        · exact ih
        · simp [NameTable.declarePackage]
      | _ => exact ih

theorem names_ofLines (lines : List Text) :
    (ofLines lines).names =
      (lines.filterMap Declaration.ofLine?).foldl NameTable.declare .empty := by
  induction lines using List.reverseRecOn with
  | nil => rfl
  | append_singleton lines line ih =>
    rw [ofLines_concat, List.filterMap_append, List.foldl_append, ← ih]
    cases hLine : Declaration.ofLine? line with
    | none => simp [hLine]
    | some d =>
      simp only [List.filterMap_cons, hLine, List.filterMap_nil, List.foldl_cons, List.foldl_nil]
      cases d with
      | package name =>
        simp only [declare, NameTable.declare]
        by_cases hName : name.isEmpty = true
        · simp [hName]
        -- A package that is not the first changes neither the header nor the table.
        · by_cases hDeclared : (ofLines lines).packageAt.isSome = true
          · have hPackage := hDeclared
            rw [isSome_packageAt, Option.isSome_iff_exists] at hPackage
            obtain ⟨package, hPackage⟩ := hPackage
            have hSame : (ofLines lines).names.declarePackage name = (ofLines lines).names := by
              rw [NameTable.declarePackage, hPackage, Option.some_or, ← hPackage]
            simp [hName, hDeclared, hSame]
          · simp [hName, hDeclared]
      | _ => rfl

/-- Whether new imports go behind a declaration. -/
def moves (h : Header) : Declaration → Bool
  | .package name => !(name.isEmpty || h.packageAt.isSome || h.lastImportAt.isSome)
  | _ => true

theorem insertAt_declare_eq (h : Header) (i : Nat) (d : Declaration) :
    (h.declare i d).insertAt = if h.moves d then i + 1 else h.insertAt := by
  cases d with
  | package name =>
    cases hName : name.isEmpty
    · cases hLast : h.lastImportAt <;> cases hPackage : h.packageAt <;>
        simp [declare, moves, insertAt, hName, hLast, hPackage]
    · simp [declare, moves, hName]
  | _ => rfl

/-- A declaration on line `i` moves the place of new imports behind that line, unless it is a
package. -/
theorem insertAt_declare (h : Header) (i : Nat) (d : Declaration) :
    (h.declare i d).insertAt = i + 1 ∨
      (h.declare i d).insertAt = h.insertAt ∧ ∃ name, d = .package name := by
  rw [insertAt_declare_eq]
  cases hMoves : h.moves d with
  | true => exact .inl rfl
  | false =>
    cases d with
    | package name => exact .inr ⟨rfl, name, rfl⟩
    | _ => cases hMoves

theorem insertAt_le_length (lines : List Text) : (ofLines lines).insertAt ≤ lines.length := by
  induction lines using List.reverseRecOn with
  | nil => exact Nat.le_refl 0
  | append_singleton lines line ih =>
    rw [ofLines_concat, List.length_append, List.length_singleton]
    cases Declaration.ofLine? line with
    | none => exact Nat.le_succ_of_le ih
    | some d =>
      rcases insertAt_declare (ofLines lines) lines.length d with hMoved | ⟨hSame, -⟩
      · exact hMoved.le
      · exact hSame.trans_le (Nat.le_succ_of_le ih)

/-- The line in front of the place of new imports is a header line. -/
theorem isLine_of_getLast?_take (lines : List Text) {line : Text}
    (hLast : (lines.take (ofLines lines).insertAt).getLast? = some line) :
    Declaration.isLine line = true := by
  induction lines using List.reverseRecOn with
  | nil => cases hLast
  | append_singleton lines last ih =>
    have hLength := insertAt_le_length lines
    rw [ofLines_concat] at hLast
    cases hLine : Declaration.ofLine? last with
    | none =>
      rw [hLine, List.take_append_of_le_length hLength] at hLast
      exact ih hLast
    | some d =>
      rw [hLine] at hLast
      rcases insertAt_declare (ofLines lines) lines.length d with hMoved | ⟨hSame, -⟩
      · simp only [hMoved] at hLast
        rw [List.take_of_length_le (by simp), List.getLast?_concat, Option.some.injEq] at hLast
        rw [← hLast, Declaration.isLine, hLine, Option.isSome_some]
      · simp only [hSame] at hLast
        rw [List.take_append_of_le_length hLength] at hLast
        exact ih hLast

/-- Behind the place of new imports a file declares nothing but packages. -/
theorem package_of_mem_drop (lines : List Text) :
    ∀ d ∈ (lines.drop (ofLines lines).insertAt).filterMap Declaration.ofLine?,
      ∃ name, d = .package name := by
  induction lines using List.reverseRecOn with
  | nil => intro d hd; cases hd
  | append_singleton lines line ih =>
    intro d hd
    have hLength := insertAt_le_length lines
    rw [ofLines_concat] at hd
    cases hLine : Declaration.ofLine? line with
    | none =>
      rw [hLine, List.drop_append_of_le_length hLength, List.filterMap_append] at hd
      apply ih d
      simpa [hLine] using hd
    | some e =>
      rw [hLine] at hd
      rcases insertAt_declare (ofLines lines) lines.length e with hMoved | ⟨hSame, hPackage⟩
      · simp only [hMoved] at hd
        rw [List.drop_of_length_le (by simp)] at hd
        cases hd
      · simp only [hSame] at hd
        rw [List.drop_append_of_le_length hLength, List.filterMap_append,
          List.mem_append] at hd
        rcases hd with hd | hd
        · exact ih d hd
        · have hEq : d = e := by simpa [hLine] using hd
          exact hEq ▸ hPackage

theorem ofLines_congr {lines lines' : List Text}
    (h : lines.map Declaration.ofLine? = lines'.map Declaration.ofLine?) :
    ofLines lines = ofLines lines' := by
  have hMap (lines : List Text) : declarations lines =
      (lines.map Declaration.ofLine?).zipIdx.filterMap fun (d?, i) => d?.map fun d => (i, d) := by
    rw [List.zipIdx_map, List.filterMap_map]
    rfl
  rw [ofLines, ofLines, hMap, hMap, h]

theorem names_insert (lines block : List Text) (b : Bindings)
    (hBlock : block.filterMap Declaration.ofLine? = b.map fun p => .single p.1 p.2) :
    (ofLines (lines.take (ofLines lines).insertAt ++ block ++
      lines.drop (ofLines lines).insertAt)).names = (ofLines lines).names.addImports b := by
  rw [names_ofLines, List.filterMap_append, List.filterMap_append, hBlock, List.foldl_append,
    List.foldl_append, NameTable.foldl_declare_single,
    NameTable.foldl_declare_addImports _ _ (package_of_mem_drop lines), ← List.foldl_append,
    ← List.filterMap_append, List.take_append_drop, ← names_ofLines]

theorem lastImportAt_declare_package (h : Header) (i : Nat) (name : Text) :
    (h.declare i (.package name)).lastImportAt = h.lastImportAt := by
  rw [declare]
  split <;> rfl

theorem lastImportAt_append (lines : List Text) {rest : List Text}
    (hRest : ∀ d ∈ rest.filterMap Declaration.ofLine?, ∃ name, d = .package name) :
    (ofLines (lines ++ rest)).lastImportAt = (ofLines lines).lastImportAt := by
  induction rest using List.reverseRecOn with
  | nil => rw [List.append_nil]
  | append_singleton rest line ih =>
    rw [List.filterMap_append, List.forall_mem_append] at hRest
    rw [← List.append_assoc, ofLines_concat, ← ih hRest.1]
    cases hLine : Declaration.ofLine? line with
    | none => rfl
    | some d =>
      obtain ⟨name, rfl⟩ := hRest.2 d (by simp [hLine])
      exact lastImportAt_declare_package _ _ name

theorem insertAt_insert (lines block : List Text)
    (hBlock : ∀ line ∈ block, ∃ name path, Declaration.ofLine? line = some (.single name path)) :
    (ofLines (lines.take (ofLines lines).insertAt ++ block ++
      lines.drop (ofLines lines).insertAt)).insertAt =
        (ofLines lines).insertAt + block.length := by
  rcases block.eq_nil_or_concat' with rfl | ⟨others, line, rfl⟩
  · rw [List.append_nil, List.take_append_drop, List.length_nil, Nat.add_zero]
  · obtain ⟨name, path, hLine⟩ := hBlock line List.mem_concat_self
    have hLast : (ofLines (lines.take (ofLines lines).insertAt ++ (others ++ [line]) ++
        lines.drop (ofLines lines).insertAt)).lastImportAt =
          some ((ofLines lines).insertAt + others.length) := by
      rw [lastImportAt_append _ (package_of_mem_drop lines), ← List.append_assoc, ofLines_concat,
        hLine, List.length_append, List.length_take_of_le (insertAt_le_length lines)]
      rfl
    rw [insertAt, hLast, List.length_append]
    rfl

end Header

end ShortNames
