import Mathlib
import ShortNames.Proofs.Idempotence
import ShortNames.Proofs.Progress

/-!
# A second run changes nothing

A batch that has written all its revisions leaves every file it visited quiet, however often and on
however many paths it came to the file. So another run finds nothing to change, and fails where the
first run failed to read.
-/

namespace ShortNames

/-- A revision is not revised again. -/
theorem Revised.le_one {o : Options} {n : Nat} {source last : Text} (h : Revised o n source last)
    (hPlain : NamesAvoidApostrophes source) : n ≤ 1 := by
  cases h with
  | refl => exact Nat.zero_le 1
  | @step n _ _ r hRevise hRest =>
    have hNone : revise o r.content = none := by
      rw [revise_eq_none_iff, codeNames_content hRevise hPlain]
      intro q hq
      obtain ⟨hMem, hKept⟩ := List.mem_filter.mp hq
      exact not_shortens_content hRevise hPlain hMem (by simpa using hKept)
    cases hRest with
    | refl => exact le_rfl
    | step hAgain => cases hNone.symm.trans hAgain

namespace Batch

variable {σ ι : Type} {v : Volume σ ι} {o : Options} {mode : Mode} {s s' s₀ : σ}

/-- The texts that are read on a path stand with no name before an apostrophe. -/
def PlainAt (v : Volume σ ι) (s : σ) (p : Path) : Prop :=
  ∀ t, v.read s p = .ok t → NamesAvoidApostrophes t

theorem Visited.quiet (hv : v.Lawful) {p : Path} {visit : Visit}
    (h : Visited v o .write p s visit s') (hWritten : visit.isUnwritten = false)
    (hAdvanced : Advanced v o s₀ s) (hPlain : PlainAt v s₀ p) : Quiet v o s' p := by
  intro u hLast
  cases h with
  | unreadable hRead => cases hRead.symm.trans hLast
  | unchanged hRead hNone => rwa [← Except.ok.inj (hRead.symm.trans hLast)]
  | told hMode => cases hMode
  | unwritten => cases hWritten
  | @written t r _ _ hRead hRevise hWrite =>
    obtain rfl := Except.ok.inj ((hv.read_write hRead hWrite).1.symm.trans hLast)
    obtain ⟨n, t₀, hStart, hRevised⟩ := hAdvanced.exists_of_read hRead
    cases hAgain : revise o r.content with
    | none => rfl
    | some r' =>
      have hTwice := ((hRevised.concat hRevise).concat hAgain).le_one (hPlain t₀ hStart)
      omega

theorem Visits.quiet (hv : v.Lawful) {files : List Path} {visits : List Visit}
    (h : Visits v o .write files s visits s')
    (hWritten : ∀ visit ∈ visits, visit.isUnwritten = false) (hAdvanced : Advanced v o s₀ s)
    (hPlain : ∀ p ∈ files, PlainAt v s₀ p) : ∀ p ∈ files, Quiet v o s' p := by
  induction h with
  | nil s => exact nofun
  | cons hFirst hRest ih =>
    rw [List.forall_mem_cons] at hWritten hPlain ⊢
    have hQuiet := hFirst.quiet hv hWritten.1 hAdvanced hPlain.1
    exact ⟨hQuiet.advanced (hRest.advanced hv),
      ih hWritten.2 (hAdvanced.trans (hFirst.advanced hv)) hPlain.2⟩

theorem run_again (hv : v.Lawful) (extension : String) (targets : List Path) :
    let first := (run v.disk o .write extension targets).run s
    let again := (run v.disk o mode extension targets).run first.2
    (∀ visit ∈ first.1.visits, visit.isUnwritten = false) →
    (∀ p ∈ files v.disk s extension targets, PlainAt v s p) →
      again.2 = first.2 ∧ again.1.updates = [] ∧
        again.1.summary = { first.1.summary with updated := 0, importsAdded := 0 } := by
  intro first again hWritten hPlain
  obtain ⟨hFirst, -⟩ := visits_run hv o .write extension targets s
  obtain ⟨hAgain, -⟩ := visits_run hv o mode extension targets first.2
  obtain ⟨hKind, hTree, -⟩ := hFirst.shape hv
  have hFiles := files_congr hKind hTree extension targets
  have hQuiet := hFirst.quiet hv hWritten (.refl v o s) hPlain
  obtain ⟨hState, hOutcomes, hAgainWritten⟩ := hAgain.of_quiet (hFiles ▸ hQuiet)
  have hNone : again.1.updates = [] := hOutcomes
  refine ⟨hState, hNone, ?_⟩
  rw [summary_run hv extension targets hAgainWritten, summary_run hv extension targets hWritten,
    hNone, hFiles, isSkippedAt_congr hKind hTree, (hFirst.advanced hv).readFailure?_eq]
  rfl

/-- Running again writes nothing and tells no update. The paths on which reading or writing fails
may be any; a write that fails is excluded where the first run meets it. -/
theorem rerun_changes_nothing (cwd : List String) (noRead noWrite : Path → Option Cause)
    (fs : FileSystem) (o : Options) (extension : String) (targets : List Path) (mode : Mode) :
    let d := (FileSystem.disk cwd).failing noRead noWrite
    let first := (run d o .write extension targets).run fs
    let again := (run d o mode extension targets).run first.2
    (∀ visit ∈ first.1.visits, visit.isUnwritten = false) →
    (∀ p ∈ files d fs extension targets, ∀ t, ((d.read p).run fs).1 = .ok t →
      NamesAvoidApostrophes t) →
      again.2 = first.2 ∧ again.1.updates = [] ∧
        again.1.summary = { first.1.summary with updated := 0, importsAdded := 0 } := by
  rw [← FileSystem.disk_volume, ← Volume.disk_failing]
  exact run_again ((FileSystem.lawful_volume cwd).failing noRead noWrite) extension targets

/-- A file visited twice, and beside it one that holds no text. -/
theorem rerun_changes_nothing_of_repeated_file :
    let source := "class A { java.util.List a; }\n".toList
    let fs : FileSystem := ⟨.directory [("A.java", .file (.text source)),
      ("B.java", .file (.bytes [255]))]⟩
    let d := (FileSystem.disk []).failing (fun _ => none) (fun _ => none)
    let targets : List Path := [⟨"/A.java"⟩, ⟨"/B.java"⟩, ⟨"/./A.java"⟩]
    let first := (run d .standard .write "java" targets).run fs
    let again := (run d .standard .write "java" targets).run first.2
    (revise .standard source).isSome ∧ again.2 = first.2 ∧ again.1.updates = [] ∧
      again.1.summary = { first.1.summary with updated := 0, importsAdded := 0 } := by
  intro source fs d targets first again
  have hFiles : files d fs "java" targets = targets := by cbv
  have hPlain : NamesAvoidApostrophes source := by decide +kernel
  have hRead : ((d.read ⟨"/A.java"⟩).run fs).1 = .ok source := by cbv
  have hBytes : ((d.read ⟨"/B.java"⟩).run fs).1 = .error .notText := by cbv
  have hOther : ((d.read ⟨"/./A.java"⟩).run fs).1 = .ok source := by cbv
  refine ⟨by decide +kernel, ?_⟩
  apply rerun_changes_nothing
  · exact isUnwritten_eq_false [] (fun _ => none) fs .standard .write "java" targets
  · change ∀ p ∈ files d fs "java" targets, _
    rw [hFiles]
    simp only [targets, List.forall_mem_cons]
    refine ⟨?_, ?_, ?_, List.forall_mem_nil _⟩
    · intro t ht
      rwa [← Except.ok.inj (hRead.symm.trans ht)]
    · intro t ht
      cases hBytes.symm.trans ht
    · intro t ht
      rwa [← Except.ok.inj (hOther.symm.trans ht)]

end Batch

end ShortNames
