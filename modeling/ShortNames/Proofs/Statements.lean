import ShortNames.Declaration
import ShortNames.Proofs.Texts

/-!
# Statements by their form

The form of a package line and of an import line, without the readers: where the blanks lie, how far
a keyword reaches, and which part of a statement counts. A reader gives a text of the form, and no
two texts have the form, so it gives the only one.
-/

namespace ShortNames

namespace Text

variable {t u v word rest mark : Text}

def IsBlank (t : Text) : Prop :=
  ∀ c ∈ t, isBlank c = true

section Trim

/-- `u` is `t` without the blanks at its ends. -/
structure IsTrimmed (t u : Text) : Prop where
  within : ∃ pre post, t = pre ++ u ++ post ∧ IsBlank pre ∧ IsBlank post
  head : ∀ c ∈ u.head?, isBlank c = false
  last : ∀ c ∈ u.getLast?, isBlank c = false

theorem exists_trimEnd_append (t : Text) : ∃ post, t = trimEnd t ++ post ∧ IsBlank post :=
  ⟨t.rtakeWhile isBlank, List.rdropWhile_append_rtakeWhile.symm,
    fun _ hc => List.mem_rtakeWhile_imp hc⟩

theorem getLast?_trimEnd (t : Text) : ∀ c ∈ (trimEnd t).getLast?, isBlank c = false := by
  rw [trimEnd, List.getLast?_reverse]
  exact head?_dropWhile isBlank t.reverse

theorem trimEnd_append_of_blank {post : Text} (hPost : IsBlank post) (t : Text) :
    trimEnd (t ++ post) = trimEnd t := by
  induction post using List.reverseRecOn with
  | nil => rw [List.append_nil]
  | append_singleton post c ih =>
    rw [← List.append_assoc, trimEnd_concat, if_pos (hPost c List.mem_concat_self)]
    exact ih fun d hd => hPost d (List.mem_append_left _ hd)

theorem trimEnd_eq_self (hLast : ∀ c ∈ t.getLast?, isBlank c = false) : trimEnd t = t := by
  rcases t.eq_nil_or_concat' with rfl | ⟨s, c, rfl⟩
  · rfl
  · rw [List.getLast?_concat] at hLast
    rw [trimEnd_concat, if_neg (by simp [hLast c rfl])]

theorem isTrimmed_trim (t : Text) : IsTrimmed t (trim t) := by
  obtain ⟨post, hEnd, hPost⟩ := exists_trimEnd_append (trimStart t)
  refine ⟨⟨t.takeWhile isBlank, post, ?_, fun c hc => List.mem_takeWhile_imp hc, hPost⟩, ?_,
    getLast?_trimEnd _⟩
  · rw [List.append_assoc, trim, ← hEnd]
    exact List.takeWhile_append_dropWhile.symm
  · intro c hc
    apply head?_dropWhile isBlank t
    rw [← trimStart, hEnd, List.head?_append]
    rw [trim, Option.mem_def] at hc
    rw [hc, Option.some_or, Option.mem_some_iff]

theorem IsTrimmed.trim_eq (h : IsTrimmed t u) : trim t = u := by
  obtain ⟨⟨pre, post, rfl, hPre, hPost⟩, hHead, hLast⟩ := h
  rw [List.append_assoc, trim, trimStart, List.dropWhile_append_of_pos hPre]
  cases u with
  | nil =>
    rw [List.nil_append, List.dropWhile_eq_nil_iff.mpr hPost]
    rfl
  | cons c u =>
    rw [List.cons_append, List.dropWhile_cons_of_neg (by simp [hHead c rfl]), ← List.cons_append,
      trimEnd_append_of_blank hPost, trimEnd_eq_self hLast]

theorem trim_eq_iff : trim t = u ↔ IsTrimmed t u := by
  constructor
  · rintro rfl
    exact isTrimmed_trim t
  · exact IsTrimmed.trim_eq

theorem IsTrimmed.trim_self (h : IsTrimmed t u) : trim u = u :=
  IsTrimmed.trim_eq ⟨⟨[], [], by simp, by simp [IsBlank], by simp [IsBlank]⟩, h.head, h.last⟩

end Trim

section Keyword

/-- `t` is the keyword `word`, a blank or more, and `rest`. -/
def Opens (word t rest : Text) : Prop :=
  ∃ blanks, t = word ++ blanks ++ rest ∧ blanks ≠ [] ∧ IsBlank blanks ∧
    ∀ c ∈ rest.head?, isBlank c = false

theorem afterKeyword?_eq_some_iff : afterKeyword? word t = some rest ↔ Opens word t rest := by
  constructor
  · intro h
    obtain ⟨b, after, rfl, hb⟩ := afterKeyword?_isSome.mp (Option.isSome_of_mem h)
    rw [afterKeyword?_append hb, Option.some.injEq] at h
    subst h
    refine ⟨b :: after.takeWhile isBlank, ?_, List.cons_ne_nil _ _, ?_,
      head?_dropWhile isBlank after⟩
    · rw [List.append_assoc, List.cons_append, trimStart, List.takeWhile_append_dropWhile]
    · exact List.forall_mem_cons.mpr ⟨hb, fun c hc => List.mem_takeWhile_imp hc⟩
  · rintro ⟨blanks, rfl, hne, hBlanks, hHead⟩
    obtain ⟨b, blanks, rfl⟩ := List.exists_cons_of_ne_nil hne
    obtain ⟨hb, hBlanks⟩ := List.forall_mem_cons.mp hBlanks
    rw [List.append_assoc, List.cons_append, afterKeyword?_append hb, trimStart,
      dropWhile_append hBlanks hHead]

end Keyword

section Mark

/-- `u` is what stands in `t` before the first `mark`, which is all of `t` if there is none. -/
inductive IsBefore (mark t : Text) : Text → Prop
  | whole (hNone : ¬ mark <:+: t) : IsBefore mark t t
  | first {u rest : Text} (hFound : t = u ++ mark ++ rest)
    (hFirst : ∀ pre post, t = pre ++ mark ++ post → u.length ≤ pre.length) : IsBefore mark t u

theorem not_infix_of_cut? (h : cut? mark t = none) : ¬ mark <:+: t := by
  induction t with
  | nil =>
    rw [cut?, Option.map_eq_none_iff] at h
    rw [List.infix_nil]
    rintro rfl
    cases h
  | cons c t ih =>
    rw [cut?] at h
    split at h
    · cases h
    · rename_i hPrefix
      rw [List.infix_cons_iff, not_or]
      refine ⟨?_, ih (Option.map_eq_none_iff.mp h)⟩
      rintro ⟨after, hAfter⟩
      rw [List.isPrefixOf?_eq_some_iff_append_eq.mpr hAfter] at hPrefix
      cases hPrefix

theorem first_of_cut? (h : cut? mark t = some (u, rest)) : t = u ++ mark ++ rest ∧
    ∀ pre post, t = pre ++ mark ++ post → u.length ≤ pre.length := by
  induction t generalizing u with
  | nil =>
    rw [cut?, Option.map_eq_some_iff] at h
    obtain ⟨after, hPrefix, hEq⟩ := h
    cases hEq
    exact ⟨(List.isPrefixOf?_eq_some_iff_append_eq.mp hPrefix).symm, fun _ _ _ => Nat.zero_le _⟩
  | cons c t ih =>
    rw [cut?] at h
    split at h
    · rename_i after hPrefix
      cases h
      exact ⟨(List.isPrefixOf?_eq_some_iff_append_eq.mp hPrefix).symm, fun _ _ _ => Nat.zero_le _⟩
    · rename_i hPrefix
      obtain ⟨⟨before, after⟩, hCut, hEq⟩ := Option.map_eq_some_iff.mp h
      cases hEq
      obtain ⟨hFound, hFirst⟩ := ih hCut
      refine ⟨by rw [hFound]; rfl, ?_⟩
      intro pre post hPre
      cases pre with
      | nil =>
        rw [List.nil_append] at hPre
        rw [List.isPrefixOf?_eq_some_iff_append_eq.mpr hPre.symm] at hPrefix
        cases hPrefix
      | cons d pre => exact Nat.succ_le_succ (hFirst pre post (List.cons.inj hPre).2)

theorem isBefore_before (mark t : Text) : IsBefore mark t (before mark t) := by
  rw [before]
  cases hCut : cut? mark t with
  | none => exact .whole (not_infix_of_cut? hCut)
  | some parts =>
    obtain ⟨hFound, hFirst⟩ := first_of_cut? hCut
    exact .first hFound hFirst

theorem IsBefore.unique (h : IsBefore mark t u) (h' : IsBefore mark t v) : u = v := by
  cases h with
  | whole hNone =>
    cases h' with
    | whole => rfl
    | first hFound => exact absurd ⟨_, _, hFound.symm⟩ hNone
  | first hFound hFirst =>
    cases h' with
    | whole hNone => exact absurd ⟨_, _, hFound.symm⟩ hNone
    | first hFound' hFirst' =>
      have hLength := Nat.le_antisymm (hFirst _ _ hFound') (hFirst' _ _ hFound)
      rw [hFound, List.append_assoc, List.append_assoc] at hFound'
      exact (List.append_inj hFound' hLength).1

theorem before_eq_iff : before mark t = u ↔ IsBefore mark t u := by
  constructor
  · rintro rfl
    exact isBefore_before mark t
  · exact (isBefore_before mark t).unique

end Mark

/-- `x` is what stands in `t` behind the last dot, which is all of `t` if there is none. -/
def IsLastSegment (t x : Text) : Prop :=
  (t = x ∨ ∃ p, t = p ++ '.' :: x) ∧ '.' ∉ x

theorem lastSegment_of_not_mem (h : '.' ∉ t) : lastSegment t = t := by
  have hDots : ∀ c ∈ t.reverse, decide (c ≠ '.') = true := by
    intro c hc
    apply decide_eq_true
    rintro rfl
    exact h (List.mem_reverse.mp hc)
  rw [lastSegment, List.takeWhile_eq_self_iff.mpr hDots, List.reverse_reverse]

theorem isLastSegment_lastSegment (t : Text) : IsLastSegment t (lastSegment t) := by
  have hParts : (t.reverse.dropWhile (· ≠ '.')).reverse ++ lastSegment t = t := by
    rw [lastSegment, ← List.reverse_append, List.takeWhile_append_dropWhile, List.reverse_reverse]
  have hHead := head?_dropWhile (· ≠ '.') t.reverse
  constructor
  · cases hBefore : t.reverse.dropWhile (· ≠ '.') with
    | nil =>
      rw [hBefore] at hParts
      exact .inl hParts.symm
    | cons c p =>
      rw [hBefore] at hParts hHead
      obtain rfl : c = '.' := by simpa using hHead c rfl
      rw [List.reverse_cons, List.append_assoc] at hParts
      exact .inr ⟨p.reverse, hParts.symm⟩
  · intro hDot
    simpa using List.mem_takeWhile_imp (List.mem_reverse.mp hDot)

theorem lastSegment_eq_iff : lastSegment t = u ↔ IsLastSegment t u := by
  constructor
  · rintro rfl
    exact isLastSegment_lastSegment t
  · rintro ⟨rfl | ⟨p, rfl⟩, hDot⟩
    · exact lastSegment_of_not_mem hDot
    · exact lastSegment_append hDot p

end Text

namespace Declaration

/-- What the statement `t` says: no line comment, no closing semicolon, no blanks around it. -/
inductive IsBody (t body : Text) : Prop
  | closed {code s : Text} (hCode : Text.IsBefore ['/', '/'] t code)
    (hStatement : Text.IsTrimmed code (s ++ [';'])) (hBody : Text.IsTrimmed s body)
  | unclosed {code : Text} (hCode : Text.IsBefore ['/', '/'] t code)
    (hBody : Text.IsTrimmed code body) (hOpen : ¬ [';'] <:+ body)

theorem suffix_iff {mark t : Text} : mark <:+ t ↔ ∃ base, Text.withoutEnd? mark t = some base := by
  simp only [Text.withoutEnd?_eq_some_iff]
  rfl

theorem withoutEnd?_of_not_suffix {mark t : Text} (h : ¬ mark <:+ t) :
    Text.withoutEnd? mark t = none := by
  rw [← Option.not_isSome_iff_eq_none, Option.isSome_iff_exists]
  exact mt suffix_iff.mpr h

theorem isBody_statement (t : Text) : IsBody t (statement t) := by
  have hCode := Text.isBefore_before ['/', '/'] t
  have hTrimmed := Text.isTrimmed_trim (Text.before ['/', '/'] t)
  rw [statement]
  cases hEnd : Text.withoutEnd? [';'] (Text.before ['/', '/'] t).trim with
  | none =>
    rw [Option.getD_none, hTrimmed.trim_self]
    refine .unclosed hCode hTrimmed fun hSuffix => ?_
    obtain ⟨base, hBase⟩ := suffix_iff.mp hSuffix
    cases hEnd.symm.trans hBase
  | some s =>
    rw [← Text.withoutEnd?_eq_some_iff.mp hEnd] at hTrimmed
    exact .closed hCode hTrimmed (Text.isTrimmed_trim s)

theorem statement_eq_iff {t body : Text} : statement t = body ↔ IsBody t body := by
  constructor
  · rintro rfl
    exact isBody_statement t
  · intro h
    cases h with
    | closed hCode hStatement hBody =>
      rw [statement, Text.before_eq_iff.mpr hCode, hStatement.trim_eq,
        Text.withoutEnd?_eq_some_iff.mpr rfl, Option.getD_some, hBody.trim_eq]
    | unclosed hCode hBody hOpen =>
      rw [statement, Text.before_eq_iff.mpr hCode, hBody.trim_eq, withoutEnd?_of_not_suffix hOpen,
        Option.getD_none, hBody.trim_self]

/-- A package line, with what it says behind its keyword, which may be nothing. -/
def DeclaresPackage (line name : Text) : Prop :=
  ∃ t rest, line.IsTrimmed t ∧ Text.Opens "package".toList t rest ∧ IsBody rest name

/-- What an import line says: any path, also one that binds nothing. -/
structure Import where
  isStatic : Bool
  path : Text
  deriving DecidableEq, Repr

inductive DeclaresImport (line : Text) : Import → Prop
  | static {t rest members path : Text} (hLine : line.IsTrimmed t)
    (hImport : Text.Opens "import".toList t rest) (hStatic : Text.Opens "static".toList rest members)
    (hPath : IsBody members path) : DeclaresImport line ⟨true, path⟩
  | plain {t rest path : Text} (hLine : line.IsTrimmed t)
    (hImport : Text.Opens "import".toList t rest)
    (hPlain : ∀ members, ¬ Text.Opens "static".toList rest members)
    (hPath : IsBody rest path) : DeclaresImport line ⟨false, path⟩

/-- Whether an import of `path` makes `x` stand for `path`. -/
structure Binds (x path : Text) : Prop where
  single : ¬ ['.', '*'] <:+ path
  name : path.IsLastSegment x
  ne_nil : x ≠ []
  identifier : ∀ c ∈ x, Text.isIdentifier c = true

theorem binds_iff {x path : Text} : Binds x path ↔
    ¬ ['.', '*'] <:+ path ∧ path.lastSegment = x ∧ x ≠ [] ∧ x.all Text.isIdentifier = true := by
  rw [Text.lastSegment_eq_iff, List.all_eq_true]
  constructor
  · rintro ⟨hSingle, hName, hne, hIdentifier⟩
    exact ⟨hSingle, hName, hne, hIdentifier⟩
  · rintro ⟨hSingle, hName, hne, hIdentifier⟩
    exact ⟨hSingle, hName, hne, hIdentifier⟩

/-- A path binds one name. -/
theorem Binds.name_eq {x y path : Text} (hx : Binds x path) (hy : Binds y path) : x = y :=
  (Text.lastSegment_eq_iff.mpr hx.name).symm.trans (Text.lastSegment_eq_iff.mpr hy.name)

instance (x path : Text) : Decidable (Binds x path) :=
  decidable_of_iff _ binds_iff.symm

def NamesPackage (line : Text) : Prop :=
  ∃ name, DeclaresPackage line name ∧ name ≠ []

def IsImportLine (line : Text) : Prop :=
  ∃ m, DeclaresImport line m

def BindsName (x line : Text) : Prop :=
  ∃ m, DeclaresImport line m ∧ Binds x m.path

section Readers

def packageOf? (line : Text) : Option Text :=
  (Text.afterKeyword? packageKeyword line.trim).map statement

def importOf? (line : Text) : Option Import :=
  (Text.afterKeyword? importKeyword line.trim).map fun rest =>
    match Text.afterKeyword? staticKeyword rest with
    | some path => ⟨true, statement path⟩
    | none => ⟨false, statement rest⟩

variable {line name : Text} {m : Import}

theorem packageOf?_eq_some_iff : packageOf? line = some name ↔ DeclaresPackage line name := by
  rw [packageOf?, Option.map_eq_some_iff]
  constructor
  · rintro ⟨rest, hRest, hName⟩
    exact ⟨line.trim, rest, Text.isTrimmed_trim line, Text.afterKeyword?_eq_some_iff.mp hRest,
      statement_eq_iff.mp hName⟩
  · rintro ⟨t, rest, hLine, hPackage, hName⟩
    rw [hLine.trim_eq]
    exact ⟨rest, Text.afterKeyword?_eq_some_iff.mpr hPackage, statement_eq_iff.mpr hName⟩

theorem importOf?_eq_some_iff : importOf? line = some m ↔ DeclaresImport line m := by
  rw [importOf?, Option.map_eq_some_iff]
  constructor
  · rintro ⟨rest, hRest, rfl⟩
    have hImport := Text.afterKeyword?_eq_some_iff.mp hRest
    cases hStatic : Text.afterKeyword? staticKeyword rest with
    | some members =>
      exact .static (Text.isTrimmed_trim line) hImport (Text.afterKeyword?_eq_some_iff.mp hStatic)
        (isBody_statement members)
    | none =>
      refine .plain (Text.isTrimmed_trim line) hImport (fun members hOpens => ?_)
        (isBody_statement rest)
      cases hStatic.symm.trans (Text.afterKeyword?_eq_some_iff.mpr hOpens)
  · intro h
    cases h with
    | @static t rest members path hLine hImport hStatic hPath =>
      have hMembers : Text.afterKeyword? staticKeyword rest = some members :=
        Text.afterKeyword?_eq_some_iff.mpr hStatic
      rw [hLine.trim_eq]
      refine ⟨rest, Text.afterKeyword?_eq_some_iff.mpr hImport, ?_⟩
      rw [hMembers]
      exact congrArg (Import.mk true) (statement_eq_iff.mpr hPath)
    | @plain t rest path hLine hImport hPlain hPath =>
      have hNone : Text.afterKeyword? staticKeyword rest = none :=
        Option.eq_none_iff_forall_ne_some.mpr fun members hOpens =>
          hPlain members (Text.afterKeyword?_eq_some_iff.mp hOpens)
      rw [hLine.trim_eq]
      refine ⟨rest, Text.afterKeyword?_eq_some_iff.mpr hImport, ?_⟩
      rw [hNone]
      exact congrArg (Import.mk false) (statement_eq_iff.mpr hPath)

theorem any_packageOf? : (packageOf? line).any (· ≠ []) = true ↔ NamesPackage line := by
  simp [Option.any_eq_true, packageOf?_eq_some_iff, NamesPackage]

theorem isSome_importOf? : (importOf? line).isSome = true ↔ IsImportLine line := by
  simp [Option.isSome_iff_exists, importOf?_eq_some_iff, IsImportLine]

theorem any_importOf? {x : Text} :
    (importOf? line).any (fun m => Binds x m.path) = true ↔ BindsName x line := by
  simp [Option.any_eq_true, importOf?_eq_some_iff, BindsName]

instance (line name : Text) : Decidable (DeclaresPackage line name) :=
  decidable_of_iff _ packageOf?_eq_some_iff

instance (line : Text) (m : Import) : Decidable (DeclaresImport line m) :=
  decidable_of_iff _ importOf?_eq_some_iff

instance : DecidablePred NamesPackage :=
  fun _ => decidable_of_iff _ any_packageOf?

instance : DecidablePred IsImportLine :=
  fun _ => decidable_of_iff _ isSome_importOf?

instance (x : Text) : DecidablePred (BindsName x) :=
  fun _ => decidable_of_iff _ any_importOf?

end Readers

end Declaration

end ShortNames
