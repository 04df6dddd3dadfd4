import ShortNames.Proofs.Frame
import ShortNames.Proofs.Rescanning

/-!
# The literals of a revised text

A line that is revised keeps its string and character literals, unless a name of one letter comes
to stand between apostrophes. That makes a new literal, and a quote behind it may then open a
string where it closed one before. `NoneQuoted` tells the lines of either kind apart.
-/

namespace ShortNames

namespace Segment

def literalText? : Segment → Option Text
  | literal t => some t
  | _ => none

/-- The string and character literals of a line, in the order of the line. -/
def literals (line : Text) : List Text :=
  (ofLine line).filterMap literalText?

theorem literals_eq (line : Text) : literals line = (atoms none line).filterMap literalText? := by
  rw [literals, ofLine_eq_joinText_atoms, filterMap_joinText fun _ => rfl]

/-- The character literals that a simple name makes, itself or behind a backslash. -/
def quotedForms (name : Text) : List Text :=
  ['\'' :: (name ++ ['\'']), '\'' :: '\\' :: (name ++ ['\''])]

section Shorten

variable {f : QualifiedName → Bool}

@[simp] theorem literalText?_respell (f : QualifiedName → Bool) (segments : List Segment) :
    (segments.flatMap (respell f)).filterMap literalText? =
      segments.filterMap literalText? := by
  induction segments with
  | nil => rfl
  | cons s segments ih =>
    rw [List.flatMap_cons, List.filterMap_append, ih]
    cases s with
    | text u | literal u => rfl
    | qualified q =>
      rw [respell]
      split
      · rw [filterMap_spelled fun _ => rfl]
        rfl
      · rfl

theorem literals_shorten {line : Text} (hQuoted : NoneQuoted f (ofLine line)) :
    literals ((ofLine line).flatMap (shorten f)) = literals line := by
  rw [literals_eq, atoms_shorten_ofLine hQuoted, literalText?_respell, ← literals_eq]

theorem ClosesQuote.literal?_ne_none {segments : List Segment} {escape : Text}
    (hCloses : ClosesQuote f segments)
    (hNames : ∀ q ∈ segments.filterMap qualifiedName?, q.WellFormed)
    (hEscape : escape = [] ∨ escape = ['\\']) :
    literal? ('\'' :: (escape ++ segments.flatMap (shorten f))) ≠ none := by
  intro hNone
  cases segments with
  | nil => exact hCloses
  | cons s rest =>
    cases s with
    | text u | literal u => exact hCloses
    | qualified q =>
      obtain ⟨hf, hLength, hHead⟩ := hCloses
      obtain ⟨c, hName⟩ := List.length_eq_one_iff.mp hLength
      have hShrinks := Shrinks.of_segments f fun u hu => hNames u (List.mem_cons_of_mem q hu)
      obtain ⟨v, hv⟩ := List.head?_eq_some_iff.mp ((hShrinks.head?_iff (by decide)).mpr hHead)
      have hWord := (hNames q List.mem_cons_self).name.word c (by simp [hName])
      have hNot {d : Char} (hd : QualifiedName.isWordPart d = false) : c ≠ d := by
        rintro rfl
        exact Bool.false_ne_true (hd.symm.trans hWord)
      rw [List.flatMap_cons, shorten, if_pos hf, hName, hv] at hNone
      rcases hEscape with rfl | rfl
      · have hPlain : ¬ (c = '\\' ∨ c = '\'') := not_or.mpr ⟨hNot (by decide), hNot (by decide)⟩
        rw [List.nil_append, List.singleton_append, literal?, charRest?_plain hPlain] at hNone
        cases hNone
      · rw [List.singleton_append, List.singleton_append, literal?, charRest?,
          if_neg (hNot (by decide))] at hNone
        cases hNone

/-- A character that starts no literal in the shortened text quotes no name behind it. -/
theorem noneQuoted_push_text {c : Char} {segments : List Segment}
    (hNames : ∀ q ∈ segments.filterMap qualifiedName?, q.WellFormed)
    (hNone : literal? (c :: segments.flatMap (shorten f)) = none)
    (hRest : NoneQuoted f segments) : NoneQuoted f (push (text [c]) segments) := by
  have hFirst : ¬ (OpensQuote [c] ∧ ClosesQuote f segments) := by
    rintro ⟨hSuffix | hSuffix, hCloses⟩
    · obtain rfl := List.singleton_inj.mp (hSuffix.eq_of_length rfl)
      exact hCloses.literal?_ne_none hNames (.inl rfl) hNone
    · exact absurd hSuffix.length_le (by simp)
  cases segments with
  | nil => exact ⟨hFirst, trivial⟩
  | cons s rest =>
    cases s with
    | literal u | qualified q => exact ⟨hFirst, hRest⟩
    | text u =>
      refine ⟨?_, hRest.2⟩
      rw [List.flatMap_cons] at hNone
      -- The text in front of the name grows by `c`: it opens a quote anew, or did so before.
      rintro ⟨hSuffix | hSuffix, hCloses⟩
      · rcases List.suffix_cons_iff.mp hSuffix with hEq | hSuffix
        · obtain ⟨rfl, rfl⟩ := List.cons.inj hEq
          exact hCloses.literal?_ne_none hNames (.inl rfl) hNone
        · exact hRest.1 ⟨.inl hSuffix, hCloses⟩
      · rcases List.suffix_cons_iff.mp hSuffix with hEq | hSuffix
        · obtain ⟨rfl, rfl⟩ := List.cons.inj hEq
          exact hCloses.literal?_ne_none hNames (.inr rfl) hNone
        · exact hRest.1 ⟨.inr hSuffix, hCloses⟩

theorem QuotesName.exists_quotedForms {segments : List Segment} {w : Text}
    (h : QuotesName f segments w) : ∃ q ∈ segments.filterMap qualifiedName?, f q = true ∧
      '\'' :: w ∈ quotedForms q.name := by
  cases h with
  | @plain q rest hCloses =>
    exact ⟨q, List.mem_cons_self, hCloses.1, List.mem_cons_self⟩
  | @escaped q rest hCloses =>
    exact ⟨q, List.mem_cons_self, hCloses.1, List.mem_cons_of_mem _ List.mem_cons_self⟩

theorem exists_quotedForms {before : Option Char} {t : Text}
    (hNot : ¬ NoneQuoted f (joinText (atoms before t))) :
    ∃ q ∈ (atoms before t).filterMap qualifiedName?, f q = true ∧
      ∃ s ∈ (atoms before ((atoms before t).flatMap (shorten f))).filterMap literalText?,
        s ∈ quotedForms q.name := by
  -- Along the scan up to the first new literal: until there the second scan does what this one did.
  fun_induction atoms before t with
  | case1 => exact absurd trivial hNot
  | case2 before c t s after h ih =>
    obtain ⟨q, hq, hf, u, hu, hForm⟩ := ih hNot
    have hText : (literal s :: atoms s.getLast? after).flatMap (shorten f) =
      s ++ (atoms s.getLast? after).flatMap (shorten f) := rfl
    rw [hText, atoms_literal (literal?_append h _)]
    exact ⟨q, hq, hf, u, List.mem_cons_of_mem _ hu, hForm⟩
  | case3 before c t h p after hp ih =>
    obtain ⟨q, hq, hf, u, hu, hForm⟩ := ih hNot
    refine ⟨q, List.mem_cons_of_mem _ hq, hf, u, ?_, hForm⟩
    rw [List.flatMap_cons, shorten]
    split
    · rw [atoms_typeName (nameAt?_some hp).2.1.name, List.filterMap_append]
      exact List.mem_append_right _ hu
    · rw [atoms_kept hp]
      exact hu
  | case4 before c t h hp ih =>
    have hText : (text [c] :: atoms (some c) t).flatMap (shorten f) =
      c :: (atoms (some c) t).flatMap (shorten f) := rfl
    rw [hText]
    cases hLiteral : literal? (c :: (atoms (some c) t).flatMap (shorten f)) with
    | some p =>
      obtain ⟨w, rfl, hw, hQuotes⟩ := literal?_shorten h hLiteral
      obtain ⟨q, hq, hf, hForm⟩ := hQuotes.exists_quotedForms
      rw [atoms_literal hLiteral, hw]
      exact ⟨q, hq, hf, _, List.mem_cons_self, hForm⟩
    | none =>
      have hNames : ∀ q ∈ (joinText (atoms (some c) t)).filterMap qualifiedName?,
          q.WellFormed := by
        rw [filterMap_joinText fun _ => rfl]
        exact fun _ => wellFormed_of_mem_atoms
      have hLater : ¬ NoneQuoted f (joinText (atoms (some c) t)) := by
        apply mt (noneQuoted_push_text hNames _) hNot
        rwa [flatMap_joinText fun _ _ => rfl]
      obtain ⟨q, hq, hf, u, hu, hForm⟩ := ih hLater
      rw [atoms_text hLiteral (nameAt?_shorten hp)]
      exact ⟨q, hq, hf, u, hu, hForm⟩

theorem exists_literal_of_not_noneQuoted {line : Text} (hNot : ¬ NoneQuoted f (ofLine line)) :
    ∃ q ∈ qualifiedNames line, f q = true ∧
      ∃ s ∈ literals ((ofLine line).flatMap (shorten f)), s ∈ quotedForms q.name := by
  rw [ofLine_eq_joinText_atoms] at hNot
  rw [qualifiedNames_eq, literals_eq, flatMap_shorten_ofLine]
  exact exists_quotedForms hNot

end Shorten

end Segment

section Content

variable {o : Options} {source : Text} {r : Revision}

/-- A code line is revised by its own names alone, wherever the imports come to stand. -/
theorem forall₂_code_content (h : revise o source = some r) :
    List.Forall₂
      (fun l l' => Line.isCode l.body = true →
        l' = l.shorten (Reading.shortens o (Line.bodies source)))
      (Line.split source)
      (Line.without (Header.ofText source).insertAt r.newImports.length
        (Line.split r.content)) := by
  have hFrame := frame_content h
  by_cases hFollows :
      FollowsOpenEnd (Header.ofText source).insertAt r.newImports (Line.split source)
  · obtain ⟨first, body, e, hLines, -, hKept⟩ := hFrame.closed hFollows
    have hLast : (Line.split source).getLast? = some ⟨body, .none⟩ := by
      rw [hLines, List.getLast?_concat]
    have hHeader := Line.isCode_eq_false_of_isLine (isLine_of_insertAt hLast hFollows.2.1)
    rw [hKept, hLines]
    apply List.rel_append
    · exact List.forall₂_map_right_iff.mpr (List.forall₂_same.mpr fun _ _ _ => rfl)
    · refine .cons ?_ .nil
      intro hCode
      rw [hHeader] at hCode
      cases hCode
  · rw [hFrame.kept hFollows]
    exact List.forall₂_map_right_iff.mpr (List.forall₂_same.mpr fun _ _ _ => rfl)

/-- Beside the block of new imports a revised text has the lines of the text. A code line among
them has the literals it had, unless a short name comes to stand between apostrophes: then that name
has become a literal. -/
theorem literals_content (h : revise o source = some r) :
    let f := Reading.shortens o (Line.bodies source)
    List.Forall₂
      (fun l l' => Line.isCode l.body = true → l' = l.shorten f ∧
        (Segment.NoneQuoted f (Segment.ofLine l.body) →
          Segment.literals l'.body = Segment.literals l.body) ∧
        (¬ Segment.NoneQuoted f (Segment.ofLine l.body) →
          ∃ q ∈ Segment.qualifiedNames l.body, f q = true ∧
            ∃ s ∈ Segment.literals l'.body, s ∈ Segment.quotedForms q.name))
      (Line.split source)
      (Line.without (Header.ofText source).insertAt r.newImports.length
        (Line.split r.content)) := by
  apply (forall₂_code_content h).imp
  intro l l' hLine hCode
  have hShort := hLine hCode
  rw [hShort, Line.shorten_of_isCode hCode]
  exact ⟨rfl, Segment.literals_shorten, Segment.exists_literal_of_not_noneQuoted⟩

/-- A short name before an apostrophe, with no apostrophe before it. -/
theorem literals_content_of_single_apostrophe :
    let line := "a.B' c = '\"';".toList
    let short := "B' c = '\"';".toList
    let content := "import a.B;\n".toList ++ short
    let f := Reading.shortens .standard (Line.bodies line)
    revise .standard line = some ⟨content, ["a.B".toList], 1⟩ ∧ Line.isCode line = true ∧
      Segment.NoneQuoted f (Segment.ofLine line) ∧
      Segment.literals short = Segment.literals line ∧
      Segment.literals line = ["'\"'".toList] := by
  intro line short content f
  have hr : revise .standard line = some ⟨content, ["a.B".toList], 1⟩ := by decide +kernel
  have hCode : Line.isCode line = true := by decide +kernel
  have hQuoted : Segment.NoneQuoted f (Segment.ofLine line) := by decide +kernel
  have hLines : Line.split line = [⟨line, .none⟩] := by decide +kernel
  have hRevised : Line.without (Header.ofText line).insertAt 1 (Line.split content) =
      [⟨short, .none⟩] := by decide +kernel
  have hLiterals := literals_content hr
  rw [hLines] at hLiterals
  obtain ⟨hSame, -⟩ := List.forall₂_cons.mp (hRevised ▸ hLiterals)
  exact ⟨hr, hCode, hQuoted, (hSame hCode).2.1 hQuoted, by decide +kernel⟩

/-- Between apostrophes a short name is a character, and the quotes behind it pair up anew. -/
theorem character_made_of_short_name :
    let source := "class A { } // 'a.B'\"' and \"com.acme.Foo\"\n".toList
    let content := "import a.B;\nclass A { } // 'B'\"' and \"com.acme.Foo\"\n".toList
    revise .standard source = some ⟨content, ["a.B".toList], 1⟩ ∧
      (Line.bodies source).map Segment.literals =
        [["'\"'".toList, "\"com.acme.Foo\"".toList]] ∧
      (Line.bodies content).map Segment.literals =
        [[], ["'B'".toList, "\"' and \"".toList]] ∧
      ¬ List.Forall₂
        (fun l l' => Line.isCode l.body = true →
          Segment.literals l'.body = Segment.literals l.body)
        (Line.split source) (Line.without 0 1 (Line.split content)) := by
  intro source content
  refine ⟨?_, ?_, ?_, ?_⟩ <;> decide +kernel

end Content

end ShortNames
