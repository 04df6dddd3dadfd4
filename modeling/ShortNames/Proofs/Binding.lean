import ShortNames.Proofs.Layout

/-!
# What a short name means

A simple name that replaces a qualified one has to mean the same type in the revised text. A claim
sees to that: the header of the revision imports the claimed type, or leaves it to the only import
on demand. Types that are in scope without a claim can be captured; the last theorem says when.
-/

namespace ShortNames

section Claims

variable {o : Options} {source : Text} {r : Revision} {q u : QualifiedName}

open Reading (claimant?)

/-- A name that was shortened by a claim stays bound to its type: the revised text imports it
under its simple name, or imports no type of that name and only its package on demand. -/
theorem bound_in_revision (h : revise o source = some r) {q : QualifiedName} {v : Verdict}
    (hv : (q, v) ∈ (Reading.ofText o source).judgements) :
    (v = .alreadyImported ∨ v = .staged ∨ v = .alreadyStaged →
      (Header.ofText r.content).names.imported? q.name = some q.text) ∧
    (v = .covered → (Header.ofText r.content).names.imported? q.name = none ∧
      (Header.ofText r.content).names.soleOnDemand? = some q.package) := by
  rw [Reading.judgements_ofText] at hv
  obtain ⟨before, after, hNames, hGround⟩ :=
    (Reading.settled_startNames o (Line.bodies source)).judged hv
  have hClaim (hFirst : firstEligible? o (Header.ofText source).names
      (Reading.openNames (Line.bodies source)) (before ++ q :: after) q.name = some q) :
      claimant? o (Line.bodies source) q.name = some q := by
    rwa [claimant?, hNames]
  rw [List.nil_append] at hGround
  rw [soleOnDemand?_content h]
  cases hGround with
  | alreadyImported _ hImport => exact ⟨fun _ => imported?_content_of_imported h hImport, nofun⟩
  | alreadyStaged hFirst hSole =>
    have hq := hClaim (firstEligible?_append_of_some hFirst _)
    exact ⟨fun _ => imported?_content_of_staged h hq hSole, nofun⟩
  | staged hFree hEligible hSole =>
    have hq := hClaim (firstEligible?_append_cons_of_free hEligible hFree _)
    exact ⟨fun _ => imported?_content_of_staged h hq hSole, nofun⟩
  | alreadyCovered hFirst hSole =>
    have hq := hClaim (firstEligible?_append_of_some hFirst _)
    exact ⟨by simp, fun _ => ⟨imported?_content_of_covered h hq hSole, hSole⟩⟩
  | covered hFree hEligible hSole =>
    have hq := hClaim (firstEligible?_append_cons_of_free hEligible hFree _)
    exact ⟨by simp, fun _ => ⟨imported?_content_of_covered h hq hSole, hSole⟩⟩
  | _ => exact ⟨by simp, by simp⟩

/-- One type imported on demand, one by a new import. -/
theorem bound_in_revision_of_map_and_list :
    let source := "import java.util.*;\nclass A { java.util.Map m; java.io.File f; }\n".toList
    let map : QualifiedName := ⟨"java.util".toList, "Map".toList⟩
    let file : QualifiedName := ⟨"java.io".toList, "File".toList⟩
    ∃ r, revise .standard source = some r ∧
      (map, .covered) ∈ (Reading.ofText .standard source).judgements ∧
      (file, .staged) ∈ (Reading.ofText .standard source).judgements ∧
      (Header.ofText r.content).names.imported? map.name = none ∧
      (Header.ofText r.content).names.imported? file.name = some file.text := by
  intro source map file
  have hMap : (map, .covered) ∈ (Reading.ofText .standard source).judgements := by decide +kernel
  have hFile : (file, .staged) ∈ (Reading.ofText .standard source).judgements := by decide +kernel
  have hSome : (revise .standard source).isSome = true := by decide +kernel
  obtain ⟨r, hr⟩ := Option.isSome_iff_exists.mp hSome
  exact ⟨r, hr, hMap, hFile, ((bound_in_revision hr hMap).2 rfl).1,
    (bound_in_revision hr hFile).1 (.inr (.inl rfl))⟩

end Claims

/-- Whether a type is in scope in a file that does not import it. -/
def InScope (o : Options) (h : NameTable) (q : QualifiedName) : Prop :=
  q.package ∈ o.builtinPackages ∨ h.package = some q.package

/-- No type in scope shares its simple name with another type that the file imports, has in scope,
or may claim that name for. -/
def Uncontested (o : Options) (bodies : List Text) : Prop :=
  ∀ q ∈ Reading.codeNames bodies, InScope o (Header.ofLines bodies).names q →
    (∀ path ∈ (Header.ofLines bodies).names.imported? q.name, path = q.text) ∧
    ∀ u ∈ Reading.codeNames bodies, u.name = q.name →
      (InScope o (Header.ofLines bodies).names u → u.package = q.package) ∧
      ¬ Eligible o (Header.ofLines bodies).names (Reading.openNames bodies) u

instance (o : Options) (h : NameTable) (q : QualifiedName) : Decidable (InScope o h q) :=
  inferInstanceAs (Decidable (_ ∨ _))

instance (o : Options) (bodies : List Text) : Decidable (Uncontested o bodies) :=
  inferInstanceAs (Decidable (∀ q ∈ Reading.codeNames bodies, _))

section Captures

variable {o : Options} {bodies : List Text} {q u : QualifiedName}

open Reading (codeNames claimant? claimant?_some shortens shortens_of_claimant?)

theorem shortens_iff (hExempt : o.exemptNames = []) :
    shortens o bodies q = true ↔ InScope o (Header.ofLines bodies).names q ∨
      (Header.ofLines bodies).names.imported? q.name = some q.text ∨
      ((Header.ofLines bodies).names.imported? q.name = none ∧
        claimant? o bodies q.name = some q) := by
  rw [shortens, decide_eq_true_eq, IsShortened, hExempt, map_text_firstEligible?, InScope, or_assoc]
  exact or_iff_right List.not_mem_nil

theorem foreign_iff (hExempt : o.exemptNames = []) {h : NameTable} :
    Foreign o h q ↔ ¬ InScope o h q := by
  rw [Foreign, hExempt, InScope, not_or]
  exact and_iff_right List.not_mem_nil

theorem Uncontested.package_eq_of_inScope (hAlone : Uncontested o bodies)
    (hExempt : o.exemptNames = []) (hq : q ∈ codeNames bodies)
    (hScope : InScope o (Header.ofLines bodies).names q) (hu : u ∈ codeNames bodies)
    (hName : u.name = q.name) (hShort : shortens o bodies u = true) : u.package = q.package := by
  obtain ⟨hImports, hOthers⟩ := hAlone q hq hScope
  rcases (shortens_iff hExempt).mp hShort with huScope | hImport | ⟨-, hFirst⟩
  · exact (hOthers u hu hName).1 huScope
  · rw [hName] at hImport
    rw [QualifiedName.eq_of_text_eq (hImports u.text hImport) hName]
  · exact absurd (claimant?_some hFirst).2.2 (hOthers u hu hName).2

/-- Where no simple name is contested, one simple name stands for one type. -/
theorem Uncontested.package_eq (hAlone : Uncontested o bodies) (hExempt : o.exemptNames = [])
    (hq : q ∈ codeNames bodies) (hu : u ∈ codeNames bodies) (hName : q.name = u.name)
    (hqShort : shortens o bodies q = true) (huShort : shortens o bodies u = true) :
    q.package = u.package := by
  rcases (shortens_iff hExempt).mp hqShort with hqScope | hqImport | ⟨hqFree, hqFirst⟩
  · exact (hAlone.package_eq_of_inScope hExempt hq hqScope hu hName.symm huShort).symm
  · rcases (shortens_iff hExempt).mp huShort with huScope | huImport | ⟨huFree, -⟩
    · exact hAlone.package_eq_of_inScope hExempt hu huScope hq hName hqShort
    · rw [← hName, hqImport] at huImport
      rw [QualifiedName.eq_of_text_eq (Option.some.inj huImport) hName]
    · rw [← hName, hqImport] at huFree
      cases huFree
  · rcases (shortens_iff hExempt).mp huShort with huScope | huImport | ⟨-, huFirst⟩
    · exact hAlone.package_eq_of_inScope hExempt hu huScope hq hName hqShort
    · rw [← hName, hqFree] at huImport
      cases huImport
    · rw [← hName, hqFirst] at huFirst
      rw [Option.some.inj huFirst]

/-- Where no simple name is contested, a revision imports no other type under a name it
shortened to. -/
theorem Uncontested.imported?_content {source : Text} {r : Revision}
    (hAlone : Uncontested o (Line.bodies source)) (hExempt : o.exemptNames = [])
    (h : revise o source = some r) (hq : q ∈ codeNames (Line.bodies source))
    (hShort : shortens o (Line.bodies source) q = true) {path : Text}
    (hPath : (Header.ofText r.content).names.imported? q.name = some path) : path = q.text := by
  rcases imported?_content_cases h hPath with hOld | ⟨u, hFirst, rfl⟩
  · rcases (shortens_iff hExempt).mp hShort with hScope | hImport | ⟨hFree, -⟩
    · exact (hAlone q hq hScope).1 path hOld
    · exact Option.some.inj (hOld.symm.trans hImport)
    · cases hOld.symm.trans hFree
  · obtain ⟨hu, hName, -⟩ := claimant?_some hFirst
    have hPackage := hAlone.package_eq hExempt hu hq hName (shortens_of_claimant? hFirst) hShort
    rw [QualifiedName.eq_of_package_eq hPackage hName]

theorem uncontested_of_no_capture {source : Text} {r : Revision} (hExempt : o.exemptNames = [])
    (h : revise o source = some r)
    (hOne : ∀ q ∈ codeNames (Line.bodies source), shortens o (Line.bodies source) q = true →
      ∀ u ∈ codeNames (Line.bodies source), shortens o (Line.bodies source) u = true →
        q.name = u.name → q.package = u.package)
    (hBound : ∀ q ∈ codeNames (Line.bodies source), shortens o (Line.bodies source) q = true →
      ∀ path, (Header.ofText r.content).names.imported? q.name = some path → path = q.text) :
    Uncontested o (Line.bodies source) := by
  have hShort {u : QualifiedName} (hScope : InScope o (Header.ofText source).names u) :
      shortens o (Line.bodies source) u = true := (shortens_iff hExempt).mpr (.inl hScope)
  intro q hq hScope
  constructor
  · intro path hPath
    exact hBound q hq (hShort hScope) path (imported?_content_of_imported h hPath)
  intro u hu hName
  constructor
  · intro huScope
    exact hOne u hu (hShort huScope) q hq (hShort hScope) hName
  · -- If `u` may claim the name, then somebody has claimed it, from another package than `q`.
    intro hEligible
    obtain ⟨w, hFirst⟩ := exists_firstEligible? hu hEligible
    obtain ⟨hw, hwName, hForeign, -⟩ := claimant?_some hFirst
    have hPackage := hOne w hw (shortens_of_claimant? hFirst) q hq (hShort hScope)
      (hwName.trans hName)
    apply (foreign_iff hExempt).mp hForeign
    rwa [InScope, hPackage]

theorem forall_shortened_iff (o : Options) (source : Text) (P : QualifiedName → Prop) :
    (∀ j ∈ (Reading.ofText o source).judgements, j.2.shortens = true → P j.1) ↔
      ∀ q ∈ codeNames (Line.bodies source), shortens o (Line.bodies source) q = true → P q := by
  constructor
  · intro hJudged q hq hShort
    rw [← NameTable.map_fst_judge o (Reading.startNames (Header.ofText source) (Line.bodies source))
      (codeNames (Line.bodies source)), ← Reading.judgements_ofText] at hq
    obtain ⟨j, hj, rfl⟩ := List.mem_map.mp hq
    exact hJudged j hj ((Reading.shortens_of_mem_judgements hj).trans hShort)
  · intro hRule j hj hShort
    rw [Reading.shortens_of_mem_judgements hj] at hShort
    exact hRule j.1 (Reading.mem_codeNames_of_judgement hj) hShort

/-- No short name changes its meaning exactly where no simple name of a type in scope is contested:
then one simple name stands for one type, and the revised text imports no other under it. -/
theorem no_capture_iff_uncontested {source : Text} {r : Revision} (hExempt : o.exemptNames = [])
    (h : revise o source = some r) :
    Uncontested o (Line.bodies source) ↔
      (∀ j ∈ (Reading.ofText o source).judgements, j.2.shortens = true →
        ∀ k ∈ (Reading.ofText o source).judgements, k.2.shortens = true →
          j.1.name = k.1.name → j.1.package = k.1.package) ∧
      ∀ j ∈ (Reading.ofText o source).judgements, j.2.shortens = true →
        ∀ path, (Header.ofText r.content).names.imported? j.1.name = some path →
          path = j.1.text := by
  rw [forall_shortened_iff o source fun q => ∀ k ∈ (Reading.ofText o source).judgements,
      k.2.shortens = true → q.name = k.1.name → q.package = k.1.package,
    forall_shortened_iff o source fun q => ∀ path,
      (Header.ofText r.content).names.imported? q.name = some path → path = q.text]
  have hPairs (q : QualifiedName) :=
    forall_shortened_iff o source fun u => q.name = u.name → q.package = u.package
  simp only [hPairs]
  constructor
  · intro hAlone
    constructor
    · intro q hq hqShort u hu huShort hName
      exact hAlone.package_eq hExempt hq hu hName hqShort huShort
    · intro q hq hShort path hPath
      exact hAlone.imported?_content hExempt h hq hShort hPath
  · rintro ⟨hOne, hBound⟩
    exact uncontested_of_no_capture hExempt h hOne hBound

/-- A file that uses one `String` only. -/
theorem no_capture_of_single_string :
    let source := "class A { java.lang.String s; java.io.File f; com.acme.File g; }\n".toList
    ∃ r, Options.standard.exemptNames = [] ∧ revise .standard source = some r ∧
      Uncontested .standard (Line.bodies source) ∧
      ∀ j ∈ (Reading.ofText .standard source).judgements, j.2.shortens = true →
        ∀ path, (Header.ofText r.content).names.imported? j.1.name = some path →
          path = j.1.text := by
  intro source
  have hAlone : Uncontested .standard (Line.bodies source) := by decide +kernel
  have hSome : (revise .standard source).isSome = true := by decide +kernel
  obtain ⟨r, hr⟩ := Option.isSome_iff_exists.mp hSome
  exact ⟨r, rfl, hr, hAlone, ((no_capture_iff_uncontested rfl hr).mp hAlone).2⟩

/-- A type in scope is written short even where the file imports another type of that name. -/
theorem string_captured_by_import :
    let source := "import com.acme.String;\nclass A { java.lang.String s; }\n".toList
    ∃ r, Options.standard.exemptNames = [] ∧ revise .standard source = some r ∧
      ∃ j ∈ (Reading.ofText .standard source).judgements, j.2.shortens = true ∧
        (Header.ofText r.content).names.imported? j.1.name = some "com.acme.String".toList ∧
        "com.acme.String".toList ≠ j.1.text := by
  intro source
  have hSome : (revise .standard source).isSome = true := by decide +kernel
  obtain ⟨r, hr⟩ := Option.isSome_iff_exists.mp hSome
  have hImport : (Header.ofText source).names.imported? "String".toList =
      some "com.acme.String".toList := by decide +kernel
  refine ⟨r, rfl, hr, (⟨"java.lang".toList, "String".toList⟩, .builtIn), ?_, rfl,
    imported?_content_of_imported hr hImport, by decide +kernel⟩
  decide +kernel

end Captures

end ShortNames
