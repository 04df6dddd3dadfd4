import Mathlib.Data.List.Perm.Subperm
import ShortNames.Proofs.ByteOrder
import ShortNames.Proofs.Layout

/-!
# The imports that a revision adds

A revision imports the types that were staged while the text was read, and no others. So each of
them is the first claim to its simple name, nothing in the file speaks against it, and all names of
that type are written short. They come in the order of their bytes.
-/

namespace ShortNames

/-- What makes a file with the lines `bodies` import the type `q` by its simple name: `q` occurs,
nothing brings it into scope, and nothing else may be meant by the simple name. -/
structure NeedsImport (o : Options) (bodies : List Text) (q : QualifiedName) : Prop where
  occurs : q ∈ Reading.codeNames bodies
  notImported : (Header.ofLines bodies).names.imported? q.name = none
  notExempt : q.name ∉ o.exemptNames
  notBuiltin : q.package ∉ o.builtinPackages
  notOwn : (Header.ofLines bodies).names.package ≠ some q.package
  notOnDemand : (Header.ofLines bodies).names.soleOnDemand? ≠ some q.package
  notBare : (Header.ofLines bodies).names.onDemand ≠ [] → q.name ∉ Reading.bareNames bodies

theorem NameTable.Ground.eq_staged {o : Options} {h : NameTable} {bare : List Text}
    {seen : List QualifiedName} {q : QualifiedName} {v : Verdict} (hv : Ground o h bare seen q v)
    (hFree : firstEligible? o h bare seen q.name = none) (hq : Eligible o h bare q)
    (hSole : h.soleOnDemand? ≠ some q.package) : v = .staged := by
  cases hv with
  | exempt hName => exact absurd hName hq.1.1
  | builtIn hPackage => exact absurd hPackage hq.1.2.1
  | samePackage hPackage => exact absurd hPackage hq.1.2.2
  | alreadyImported _ hImport | shadowConflict _ hImport _ => cases hImport.symm.trans hq.2.1
  | pendingConflict _ _ hFirst _ | alreadyStaged hFirst _ => cases hFirst.symm.trans hFree
  | alreadyCovered _ hCovers | covered _ _ hCovers => exact absurd hCovers hSole
  | bareConflict _ _ _ _ hBare => exact absurd hBare (hq.2.2.resolve_left hSole)
  | staged _ _ _ => rfl

namespace Reading

/-- Whether `q` claims its simple name with an import of its own. -/
def IsStaged (o : Options) (bodies : List Text) (q : QualifiedName) : Prop :=
  claimant? o bodies q.name = some q ∧
    (Header.ofLines bodies).names.soleOnDemand? ≠ some q.package

section Staged

variable {o : Options} {bodies : List Text} {source : Text} {q : QualifiedName}

theorem mem_openNames_iff {x : Text} : x ∈ openNames bodies ↔
    (Header.ofLines bodies).names.onDemand ≠ [] ∧ x ∈ bareNames bodies := by
  unfold openNames
  split
  · rename_i hNone
    rw [List.isEmpty_iff] at hNone
    simp [hNone]
  · rename_i hSome
    rw [List.isEmpty_iff] at hSome
    simp [hSome]

theorem IsStaged.needsImport (hq : IsStaged o bodies q) : NeedsImport o bodies q := by
  obtain ⟨hOccurs, -, ⟨hExempt, hBuiltin, hOwn⟩, hFree, hClaim⟩ := claimant?_some hq.1
  constructor
  case occurs => exact hOccurs
  case notImported => exact hFree
  case notExempt => exact hExempt
  case notBuiltin => exact hBuiltin
  case notOwn => exact hOwn
  case notOnDemand => exact hq.2
  case notBare =>
    intro hOnDemand hBare
    exact hClaim.resolve_left hq.2 (mem_openNames_iff.mpr ⟨hOnDemand, hBare⟩)

theorem mem_staged_iff {p : Text × Text} : p ∈ (ofText o source).names.staged ↔
    ∃ q, IsStaged o (Line.bodies source) q ∧ p = (q.name, q.text) := by
  have hs := settled_ofText o source
  rw [← Bindings.get?_eq_some_iff hs.nodup, hs.staged, Option.map_eq_some_iff]
  constructor
  · rintro ⟨q, hq, hText⟩
    obtain ⟨hFirst, hSole⟩ := Option.filter_eq_some_iff.mp hq
    obtain ⟨-, hName, -⟩ := firstEligible?_some hFirst
    refine ⟨q, ⟨?_, of_decide_eq_true hSole⟩, Prod.ext hName.symm hText.symm⟩
    rw [hName]
    exact hFirst
  · rintro ⟨q, ⟨hFirst, hSole⟩, rfl⟩
    exact ⟨q, Option.filter_eq_some_iff.mpr ⟨hFirst, decide_eq_true hSole⟩, rfl⟩

/-- A type that is staged is staged where it occurs first. -/
theorem mem_judgements_iff :
    (q, .staged) ∈ (ofText o source).judgements ↔ IsStaged o (Line.bodies source) q := by
  rw [judgements_ofText]
  constructor
  · intro hMem
    obtain ⟨before, after, hNames, hGround⟩ :=
      (settled_startNames o (Line.bodies source)).judged hMem
    cases hGround with
    | staged hFree hEligible hSole =>
      refine ⟨?_, hSole⟩
      rw [claimant?, hNames]
      exact firstEligible?_append_cons_of_free hEligible hFree after
  · rintro ⟨hFirst, hSole⟩
    obtain ⟨-, before, after, hNames, hBefore⟩ := List.find?_eq_some_iff_append.mp hFirst
    have hFree : firstEligible? o (Header.ofLines (Line.bodies source)).names
        (openNames (Line.bodies source)) ([] ++ before) q.name = none := by
      apply List.find?_eq_none.mpr
      intro u hu hEligible
      have hNot := hBefore u hu
      rw [hEligible] at hNot
      cases hNot
    have hGround := ((settled_startNames o (Line.bodies source)).behind before).ground q
    have hVerdict := hGround.eq_staged hFree (claimant?_some hFirst).2.2 hSole
    rw [hNames, NameTable.judge_append, NameTable.judge, Header.ofText, hVerdict]
    exact List.mem_append_right _ List.mem_cons_self

end Staged

end Reading

section NewImports

variable {o : Options} {source : Text} {r : Revision} (h : revise o source = some r)
include h

theorem mem_newImports_iff {n : Text} : n ∈ r.newImports ↔
    ∃ q, Reading.IsStaged o (Line.bodies source) q ∧ q.text = n := by
  rw [(perm_newImports h).mem_iff, List.mem_map]
  constructor
  · rintro ⟨p, hp, rfl⟩
    obtain ⟨q, hq, rfl⟩ := Reading.mem_staged_iff.mp hp
    exact ⟨q, hq, rfl⟩
  · rintro ⟨q, hq, rfl⟩
    exact ⟨_, Reading.mem_staged_iff.mpr ⟨q, hq, rfl⟩, rfl⟩

theorem nodup_lastSegment_newImports : (r.newImports.map Text.lastSegment).Nodup := by
  have hNodup := nodup_bindings h
  rwa [Revision.bindings, List.map_map] at hNodup

theorem pairwise_newImports : r.newImports.Pairwise Text.BytesBefore := by
  have hNodup := (perm_newImports h).nodup_iff.mp (nodup_lastSegment_newImports h).of_map
  rw [(revise_eq_some h).1]
  exact Text.pairwise_bytesBefore_mergeSort hNodup

theorem length_newImports_le : r.newImports.length ≤ r.replacements := by
  have hNodup := (nodup_lastSegment_newImports h).of_map
  have hShort : r.newImports ⊆ ((Reading.codeNames (Line.bodies source)).filter
      (Reading.shortens o (Line.bodies source))).map QualifiedName.text := by
    intro n hn
    obtain ⟨q, hq, rfl⟩ := (mem_newImports_iff h).mp hn
    apply List.mem_map_of_mem
    exact List.mem_filter.mpr ⟨hq.needsImport.occurs, Reading.shortens_of_claimant? hq.1⟩
  calc
    r.newImports.length ≤ _ := (hNodup.subperm hShort).length_le
    _ = r.replacements := by
      rw [List.length_map, ← List.countP_eq_length_filter, (revise_eq_some h).2.2]

/-- A revision adds the imports that its text needs, each once and in the order of their bytes. All
names of a type that it imports are written short, and no other import binds that simple name.
Every type that was staged is imported. -/
theorem newImports_needed :
    let judgements := (Reading.ofText o source).judgements
    r.newImports.Pairwise Text.BytesBefore ∧
      (r.newImports.map Text.lastSegment).Nodup ∧
      r.newImports.length ≤ r.replacements ∧
      (∀ n ∈ r.newImports, ∃ q, (q, .staged) ∈ judgements ∧ q.text = n ∧
        q.name = n.lastSegment ∧ NeedsImport o (Line.bodies source) q ∧
        ∀ j ∈ judgements, j.1.text = n → j.2.shortens = true) ∧
      ∀ q, (q, .staged) ∈ judgements → q.text ∈ r.newImports := by
  intro judgements
  refine ⟨pairwise_newImports h, nodup_lastSegment_newImports h, length_newImports_le h, ?_, ?_⟩
  · intro n hn
    obtain ⟨q, hq, rfl⟩ := (mem_newImports_iff h).mp hn
    have hOccurs := hq.needsImport.occurs
    refine ⟨q, Reading.mem_judgements_iff.mpr hq, rfl, ?_, hq.needsImport, ?_⟩
    · rw [(Reading.wellFormed_of_mem_codeNames hOccurs).lastSegment_text]
    · intro j hj hText
      have hSame := Reading.eq_of_text_eq_of_mem_codeNames
        (Reading.mem_codeNames_of_judgement hj) hOccurs hText
      rw [Reading.shortens_of_mem_judgements hj, hSame]
      exact Reading.shortens_of_claimant? hq.1
  · intro q hq
    exact (mem_newImports_iff h).mpr ⟨q, Reading.mem_judgements_iff.mp hq, rfl⟩

end NewImports

/-- The second `Foo` comes too late, and a `Baz` stands bare behind an import on demand. -/
theorem newImports_needed_of_bare_name :
    let source := "import u.*;\nclass A { z.Foo f; a.b.Bar g; z.Foo h; y.Foo i; c.Baz j; Baz k; }"
    let judgements := (Reading.ofText .standard source.toList).judgements
    ∃ r, revise .standard source.toList = some r ∧ r.replacements = 3 ∧
      r.newImports.Pairwise Text.BytesBefore ∧ r.newImports.length ≤ 3 ∧
      "z.Foo".toList ∈ r.newImports ∧ "a.b.Bar".toList ∈ r.newImports ∧
      (∀ n ∈ r.newImports, ∃ q, q.text = n ∧ NeedsImport .standard (Line.bodies source.toList) q) ∧
      (⟨"c".toList, "Baz".toList⟩, .bareConflict) ∈ judgements := by
  intro source judgements
  have hSome : (revise .standard source.toList).map Revision.replacements = some 3 := by
    decide +kernel
  obtain ⟨r, hr, hCount⟩ := Option.map_eq_some_iff.mp hSome
  obtain ⟨hOrder, -, hLength, hNeeded, hStaged⟩ := newImports_needed hr
  refine ⟨r, hr, hCount, hOrder, hCount ▸ hLength, ?_, ?_, ?_, by decide +kernel⟩
  · exact hStaged ⟨"z".toList, "Foo".toList⟩ (by decide +kernel)
  · exact hStaged ⟨"a.b".toList, "Bar".toList⟩ (by decide +kernel)
  · intro n hn
    obtain ⟨q, -, hText, -, hNeeds, -⟩ := hNeeded n hn
    exact ⟨q, hText, hNeeds⟩

end ShortNames
