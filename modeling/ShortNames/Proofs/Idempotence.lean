import ShortNames.Proofs.BareNames
import ShortNames.Proofs.Layout

/-!
# A revision has no revision

Revising a text a second time changes nothing. The names that are left were kept for a reason, and
each reason is one in the revised text too: a claim that took the simple name has become an import,
or has left that simple name bare.
-/

namespace ShortNames

/-- No qualified name of a code line stands directly before an apostrophe. -/
def NamesAvoidApostrophes (source : Text) : Prop :=
  ∀ body ∈ Line.bodies source, Line.isCode body = true →
    Segment.NamesBefore NoApostrophe (Segment.ofLine body)

instance (source : Text) : Decidable (NamesAvoidApostrophes source) :=
  inferInstanceAs (Decidable (∀ body ∈ Line.bodies source, _))

theorem NamesAvoidApostrophes.noneQuoted {source body : Text} {f : QualifiedName → Bool}
    (hPlain : NamesAvoidApostrophes source)
    (hBody : body ∈ (Line.bodies source).filter Line.isCode) :
    Segment.NoneQuoted f (Segment.ofLine body) := by
  obtain ⟨hMem, hCode⟩ := List.mem_filter.mp hBody
  exact Segment.noneQuoted_of_namesBefore (hPlain body hMem hCode)

section Again

variable {o : Options} {source : Text} {r : Revision} (h : revise o source = some r)
  (hPlain : NamesAvoidApostrophes source)

open Reading (codeNames openNames bareNames shortens claimant?)

include h hPlain

theorem codeNames_content : codeNames (Line.bodies r.content) =
    (codeNames (Line.bodies source)).filter fun q => !shortens o (Line.bodies source) q := by
  rw [codeNames, filter_isCode_content h, List.flatMap_map, codeNames, List.filter_flatMap]
  apply List.flatMap_congr
  intro body hBody
  exact Segment.qualifiedNames_shorten (hPlain.noneQuoted hBody)

theorem mem_bareNames_content {x : Text} (hx : x ∈ bareNames (Line.bodies source)) :
    x ∈ bareNames (Line.bodies r.content) := by
  obtain ⟨body, hBody, hBare⟩ := List.mem_flatMap.mp hx
  rw [bareNames, filter_isCode_content h, List.flatMap_map]
  exact List.mem_flatMap.mpr
    ⟨body, hBody, BareName.mem_ofLine_shorten (hPlain.noneQuoted hBody) hBare⟩

theorem name_mem_bareNames_content {q : QualifiedName} (hq : q ∈ codeNames (Line.bodies source))
    (hShort : shortens o (Line.bodies source) q = true) :
    q.name ∈ bareNames (Line.bodies r.content) := by
  obtain ⟨body, hBody, hName⟩ := List.mem_flatMap.mp hq
  rw [bareNames, filter_isCode_content h, List.flatMap_map]
  exact List.mem_flatMap.mpr
    ⟨body, hBody, BareName.name_mem_ofLine_shorten (hPlain.noneQuoted hBody) hName hShort⟩

theorem mem_openNames_content {x : Text} (hx : x ∈ openNames (Line.bodies source)) :
    x ∈ openNames (Line.bodies r.content) := by
  have hOnDemand := onDemand_content h
  unfold openNames at hx ⊢
  unfold Header.ofText at hOnDemand
  rw [hOnDemand]
  split at hx
  · cases hx
  · rw [if_neg ‹_›]
    exact mem_bareNames_content h hPlain hx

theorem name_mem_openNames_content {q : QualifiedName} (hq : q ∈ codeNames (Line.bodies source))
    (hShort : shortens o (Line.bodies source) q = true) {package : Text}
    (hSole : (Header.ofText source).names.soleOnDemand? = some package) :
    q.name ∈ openNames (Line.bodies r.content) := by
  have hOnDemand := onDemand_content h
  rw [NameTable.onDemand_of_soleOnDemand? hSole] at hOnDemand
  unfold openNames
  unfold Header.ofText at hOnDemand
  rw [hOnDemand]
  exact name_mem_bareNames_content h hPlain hq hShort

/-- A name that had no claim in the first text may make none in the second. -/
theorem not_eligible_content {q : QualifiedName} (hq : q ∈ codeNames (Line.bodies source))
    (hOther : claimant? o (Line.bodies source) q.name ≠ some q) :
    ¬ Eligible o (Header.ofText r.content).names (openNames (Line.bodies r.content)) q := by
  rintro ⟨hForeign, hNone, hClaim⟩
  rw [foreign_content h] at hForeign
  rw [soleOnDemand?_content h] at hClaim
  have hFree := imported?_of_content_eq_none h hNone
  -- Nobody claimed the simple name, an import on demand covers the claim, or it was staged.
  cases hFirst : claimant? o (Line.bodies source) q.name with
  | none =>
    have hBarred : ¬ ((Header.ofText source).names.soleOnDemand? = some q.package ∨
        q.name ∉ openNames (Line.bodies source)) := by
      intro hClaim
      obtain ⟨u, hu⟩ := exists_firstEligible? hq ⟨hForeign, hFree, hClaim⟩
      cases hFirst.symm.trans hu
    rw [not_or, not_not] at hBarred
    rcases hClaim with hSole | hNotBare
    · exact hBarred.1 hSole
    · exact hNotBare (mem_openNames_content h hPlain hBarred.2)
  | some u =>
    obtain ⟨hu, hName, -⟩ := Reading.claimant?_some hFirst
    by_cases hSole : (Header.ofText source).names.soleOnDemand? = some u.package
    · have hShort := Reading.shortens_of_claimant? hFirst
      have hBare := name_mem_openNames_content h hPlain hu hShort hSole
      rw [hName] at hBare
      have hPackage := hSole.symm.trans (hClaim.resolve_right (not_not_intro hBare))
      have hSame : u = q := QualifiedName.eq_of_package_eq (Option.some.inj hPackage) hName
      rw [hFirst, hSame] at hOther
      exact hOther rfl
    · rw [imported?_content_of_staged h hFirst hSole] at hNone
      cases hNone

theorem not_shortens_content {q : QualifiedName} (hq : q ∈ codeNames (Line.bodies source))
    (hKept : ¬ shortens o (Line.bodies source) q = true) :
    ¬ shortens o (Line.bodies r.content) q = true := by
  rw [Reading.not_shortens_iff] at hKept ⊢
  obtain ⟨hForeign, hImport, hFirst⟩ := hKept
  refine ⟨(foreign_content h).mpr hForeign, ?_, ?_⟩
  · intro hNew
    rcases imported?_content_cases h hNew with hOld | ⟨u, hu, hText⟩
    · exact hImport hOld
    · obtain ⟨-, hName, -, hFree, -⟩ := Reading.claimant?_some hu
      rw [hName] at hFree
      exact hFirst hFree (QualifiedName.eq_of_text_eq hText hName ▸ hu)
  · intro hNone hNew
    have hOther := hFirst (imported?_of_content_eq_none h hNone)
    exact not_eligible_content h hPlain hq hOther (Reading.claimant?_some hNew).2.2

/-- Revising twice is revising once. -/
theorem revise_content_eq_none : revise o r.content = none := by
  rw [revise_eq_none_iff, codeNames_content h hPlain]
  intro q hq
  obtain ⟨hMem, hKept⟩ := List.mem_filter.mp hq
  exact not_shortens_content h hPlain hMem (by simpa using hKept)

end Again

/-- The second `Date` is kept, and the first leaves the simple name bare. -/
theorem revise_content_eq_none_of_two_dates :
    let source := "import java.util.*;\nclass A { java.util.Date d; java.sql.Date e; }".toList
    ∃ r, revise .standard source = some r ∧ NamesAvoidApostrophes source ∧
      revise .standard r.content = none := by
  intro source
  have hPlain : NamesAvoidApostrophes source := by decide +kernel
  have hSome : (revise .standard source).isSome = true := by decide +kernel
  obtain ⟨r, hr⟩ := Option.isSome_iff_exists.mp hSome
  exact ⟨r, hr, hPlain, revise_content_eq_none hr hPlain⟩

end ShortNames
