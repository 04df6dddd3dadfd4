import ShortNames.Proofs.Layout

/-!
# Revisions come to an end

A revision can make a text longer, since it adds imports. What it takes away are dots of the code
lines: a name that is written short loses those of its package, and imports are no code lines. So
the dots bound the number of revisions in a row, whatever a later reading finds in the lines.
-/

namespace ShortNames

/-- The dots in the code lines of a text. -/
def codeDots (source : Text) : Nat :=
  ((Line.bodies source).filter Line.isCode).flatten.count '.'

/-- A number of revisions in a row, from one text to another. -/
inductive Revised (o : Options) : Nat → Text → Text → Prop
  | refl (source : Text) : Revised o 0 source source
  | step {n : Nat} {source last : Text} {r : Revision} (h : revise o source = some r)
      (hRest : Revised o n r.content last) : Revised o (n + 1) source last

theorem QualifiedName.count_dot_name_lt (q : QualifiedName) :
    q.name.count '.' < q.text.count '.' := by
  rw [text, List.count_append, List.count_cons_self]
  omega

theorem Segment.count_dot_shorten (f : QualifiedName → Bool) (segments : List Segment) :
    (segments.flatMap (shorten f)).count '.' + (segments.filterMap qualifiedName?).countP f ≤
      (segments.flatMap source).count '.' := by
  induction segments with
  | nil => exact le_rfl
  | cons s segments ih =>
    rw [List.flatMap_cons, List.flatMap_cons, List.count_append, List.count_append]
    cases s with
    | text t | literal t =>
      rw [List.filterMap_cons_none rfl, Nat.add_assoc]
      exact Nat.add_le_add_left ih _
    | qualified q =>
      have hName : qualifiedName? (qualified q) = some q := rfl
      rw [List.filterMap_cons_some hName, List.countP_cons, shorten, source]
      split
      · have hLess := q.count_dot_name_lt
        omega
      · omega

section Steps

variable {o : Options} {source : Text}

theorem codeDots_content {r : Revision} (h : revise o source = some r) :
    codeDots r.content + r.replacements ≤ codeDots source := by
  have hDots := Segment.count_dot_shorten (Reading.shortens o (Line.bodies source))
    (((Line.bodies source).filter Line.isCode).flatMap Segment.ofLine)
  rw [List.flatMap_assoc, List.flatMap_assoc, List.filterMap_flatMap] at hDots
  simp only [Segment.source_ofLine, List.flatMap_id'] at hDots
  rw [codeDots, filter_isCode_content h, (revise_eq_some h).2.2, ← List.flatMap_def]
  exact hDots

theorem replacements_pos {r : Revision} (h : revise o source = some r) : 0 < r.replacements := by
  rw [(revise_eq_some h).2.2, List.countP_pos_iff]
  by_contra hNot
  push Not at hNot
  have hNone := revise_eq_none_iff.mpr hNot
  cases hNone.symm.trans h

theorem Revised.codeDots_add_le {n : Nat} {last : Text} (h : Revised o n source last) :
    codeDots last + n ≤ codeDots source := by
  induction h with
  | refl source => exact le_rfl
  | step h _ ih =>
    have hDots := codeDots_content h
    have hPos := replacements_pos h
    omega

theorem exists_revised_none (o : Options) (source : Text) :
    ∃ n last, Revised o n source last ∧ revise o last = none := by
  induction hDots : codeDots source using Nat.strong_induction_on generalizing source with
  | _ d ih =>
    subst hDots
    cases h : revise o source with
    | none => exact ⟨0, source, .refl source, h⟩
    | some r =>
      have hLess : codeDots r.content < codeDots source := by
        have hContent := codeDots_content h
        have hPos := replacements_pos h
        omega
      obtain ⟨n, last, hRest, hEnd⟩ := ih _ hLess r.content rfl
      exact ⟨n + 1, last, .step h hRest, hEnd⟩

end Steps

/-- Revising a text again and again ends in a text that has no revision, after at most as many
revisions as the text has dots in its code lines. -/
theorem revisions_end (o : Options) (source : Text) :
    (∀ r, revise o source = some r →
      1 ≤ r.replacements ∧ r.content ≠ source ∧
        codeDots r.content + r.replacements ≤ codeDots source) ∧
      (∀ n last, Revised o n source last → n ≤ codeDots source) ∧
      ∃ n ≤ codeDots source, ∃ last, Revised o n source last ∧ revise o last = none := by
  refine ⟨?_, ?_, ?_⟩
  · intro r h
    have hDots := codeDots_content h
    have hPos := replacements_pos h
    refine ⟨hPos, ?_, hDots⟩
    intro hSame
    rw [hSame] at hDots
    omega
  · intro n last h
    have hDots := h.codeDots_add_le
    omega
  · obtain ⟨n, last, h, hEnd⟩ := exists_revised_none o source
    have hDots := h.codeDots_add_le
    exact ⟨n, by omega, last, h, hEnd⟩

/-- The first revision leaves a character literal, and with it a quoted name that is none. -/
theorem revisions_end_of_stray_quotes :
    let source := "class A { } // 'a.B'\"' and \"com.acme.Foo\"\n".toList
    let last := "import a.B;\nimport com.acme.Foo;\nclass A { } // 'B'\"' and \"Foo\"\n".toList
    Revised .standard 2 source last ∧ revise .standard last = none ∧ 2 ≤ codeDots source := by
  intro source last
  let middle := "import a.B;\nclass A { } // 'B'\"' and \"com.acme.Foo\"\n".toList
  have hFirst : revise .standard source = some ⟨middle, ["a.B".toList], 1⟩ := by decide +kernel
  have hSecond : revise .standard middle = some ⟨last, ["com.acme.Foo".toList], 1⟩ := by
    decide +kernel
  have hTwice : Revised .standard 2 source last := .step hFirst (.step hSecond (.refl last))
  exact ⟨hTwice, by decide +kernel, (revisions_end .standard source).2.1 2 last hTwice⟩

end ShortNames
