import Mathlib
import ShortNames.Proofs.Progress

/-!
# Dry runs

A dry run tells what the revisions of the texts at the start come to. A run that writes tells the
same as long as it comes to no file twice, for then it reads every file as it was at the start.
-/

namespace ShortNames

namespace Batch

variable {σ ι : Type} {v : Volume σ ι} {o : Options} {mode : Mode} {p q : Path} {s s' : σ}

/-- What a visit tells of a path that reads as it does in a state. -/
def outcomeAt? (v : Volume σ ι) (o : Options) (s : σ) (written : Bool) (p : Path) :
    Option Outcome :=
  match v.read s p with
  | .ok t => (revise o t).map (Outcome.ofRevision p written)
  | .error _ => none

theorem outcomeAt?_eq_some_iff {written : Bool} {u : Outcome} :
    outcomeAt? v o s written p = some u ↔
      ∃ t r, v.read s p = .ok t ∧ revise o t = some r ∧ u = .ofRevision p written r := by
  rw [outcomeAt?]
  cases v.read s p with
  | error cause => simp
  | ok t =>
    rw [Option.map_eq_some_iff]
    simp only [Except.ok.injEq, exists_and_left, exists_eq_left', eq_comm]

theorem outcomeAt?_written (p : Path) :
    outcomeAt? v o s true p =
      (outcomeAt? v o s false p).map fun u => { u with written := true } := by
  rw [outcomeAt?, outcomeAt?]
  cases v.read s p with
  | error cause => rfl
  | ok t =>
    rw [Option.map_map]
    rfl

theorem Visited.outcome?_eq {visit : Visit} (h : Visited v o mode p s visit s')
    (hWritten : visit.isUnwritten = false) :
    visit.outcome? = outcomeAt? v o s (mode = .write) p := by
  cases h with
  | unreadable hRead => simp [Visit.outcome?, outcomeAt?, hRead]
  | unchanged hRead hNone => simp [Visit.outcome?, outcomeAt?, hRead, hNone]
  | told hMode hRead hRevise => simp [Visit.outcome?, outcomeAt?, hRead, hRevise, hMode]
  | written hMode hRead hRevise => simp [Visit.outcome?, outcomeAt?, hRead, hRevise, hMode]
  | unwritten => cases hWritten

namespace Visits

variable {files : List Path} {visits : List Visit}

theorem isUnwritten_of_dryRun (h : Visits v o .dryRun files s visits s') :
    ∀ visit ∈ visits, visit.isUnwritten = false := by
  induction h with
  | nil s => exact nofun
  | cons hFirst _ ih =>
    refine List.forall_mem_cons.mpr ⟨?_, ih⟩
    cases hFirst with
    | unreadable | unchanged | told => rfl
    | written hMode | unwritten hMode => cases hMode

theorem outcomes_of_dryRun (h : Visits v o .dryRun files s visits s') :
    visits.filterMap Visit.outcome? = files.filterMap (outcomeAt? v o s false) := by
  have hWritten := h.isUnwritten_of_dryRun
  induction h with
  | nil s => rfl
  | cons hFirst _ ih =>
    rw [List.forall_mem_cons] at hWritten
    have hOutcome := hFirst.outcome?_eq hWritten.1
    obtain rfl := hFirst.state_of_dryRun
    rw [List.filterMap_cons, List.filterMap_cons, hOutcome, ih hWritten.2]
    rfl

end Visits

/-! ## Files that are apart -/

theorem Visited.read_of_apart (hv : v.Lawful) {visit : Visit}
    (h : Visited v o mode p s visit s') (hApart : ¬ v.SameFile s p q) :
    v.read s' q = v.read s q := by
  cases h with
  | unreadable | unchanged | told | unwritten => rfl
  | written _ hRead _ hWrite =>
    exact ((hv.read_write hRead hWrite).2 q).resolve_left fun hBoth => hApart hBoth.1

namespace Visits

variable {files : List Path} {visits : List Visit}

theorem read_of_apart (hv : v.Lawful) (h : Visits v o mode files s visits s')
    (hApart : ∀ p ∈ files, ¬ v.SameFile s p q) : v.read s' q = v.read s q := by
  induction h with
  | nil s => rfl
  | cons hFirst _ ih =>
    rw [List.forall_mem_cons] at hApart
    rw [← hFirst.read_of_apart hv hApart.1]
    apply ih
    rw [Volume.sameFile_congr (hFirst.shape hv).2.2]
    exact hApart.2

theorem outcomes_of_apart (hv : v.Lawful) (h : Visits v o .write files s visits s')
    (hWritten : ∀ visit ∈ visits, visit.isUnwritten = false)
    (hApart : files.Pairwise fun p q => ¬ v.SameFile s p q) :
    visits.filterMap Visit.outcome? = files.filterMap (outcomeAt? v o s true) := by
  induction h with
  | nil s => rfl
  | @cons p files s s₁ _ _ _ hFirst _ ih =>
    rw [List.forall_mem_cons] at hWritten
    rw [List.pairwise_cons] at hApart
    have hRest := ih hWritten.2 (by
      rw [Volume.sameFile_congr (hFirst.shape hv).2.2]
      exact hApart.2)
    -- The other files still read as they did at the start.
    have hKept : files.filterMap (outcomeAt? v o s₁ true) =
        files.filterMap (outcomeAt? v o s true) := by
      apply List.filterMap_congr
      intro q hq
      rw [outcomeAt?, hFirst.read_of_apart hv (hApart.1 q hq), ← outcomeAt?]
    rw [List.filterMap_cons, List.filterMap_cons, hFirst.outcome?_eq hWritten.1, hRest, hKept]
    rfl

theorem read_of_revise (hv : v.Lawful) (h : Visits v o .write files s visits s')
    (hWritten : ∀ visit ∈ visits, visit.isUnwritten = false)
    (hApart : files.Pairwise fun p q => ¬ v.SameFile s p q) {t : Text} {r : Revision}
    (hp : p ∈ files) (hRead : v.read s p = .ok t) (hRevise : revise o t = some r) :
    v.read s' p = .ok r.content := by
  induction h with
  | nil s => cases hp
  | @cons first files s s₁ _ _ _ hFirst hRest ih =>
    rw [List.forall_mem_cons] at hWritten
    rw [List.pairwise_cons] at hApart
    have hSame := Volume.sameFile_congr (hFirst.shape hv).2.2
    rcases List.mem_cons.mp hp with rfl | hp
    · have hOthers : ∀ q ∈ files, ¬ v.SameFile s₁ q p := by
        rw [hSame]
        exact fun q hq hBoth => hApart.1 q hq hBoth.symm
      rw [hRest.read_of_apart hv hOthers]
      exact hFirst.read_of_revise hv hWritten.1 hRead hRevise
    · apply ih hWritten.2 (hSame ▸ hApart.2) hp
      rw [hFirst.read_of_apart hv (hApart.1 p hp), hRead]

end Visits

theorem dryRun_tells (hv : v.Lawful) (extension : String) (targets : List Path) :
    let dry := (run v.disk o .dryRun extension targets).run s
    let wet := (run v.disk o .write extension targets).run s
    (∀ visit ∈ wet.1.visits, visit.isUnwritten = false) →
    ((files v.disk s extension targets).Pairwise fun p q => ¬ v.SameFile s p q) →
      wet.1.updates = dry.1.updates.map (fun u => { u with written := true }) ∧
        dry.1.summary = wet.1.summary := by
  intro dry wet hWritten hApart
  obtain ⟨hDry, -⟩ := visits_run hv o .dryRun extension targets s
  obtain ⟨hWet, -⟩ := visits_run hv o .write extension targets s
  have hUpdates : wet.1.updates = dry.1.updates.map fun u => { u with written := true } := by
    rw [Report.updates, hWet.outcomes_of_apart hv hWritten hApart, Report.updates,
      hDry.outcomes_of_dryRun, List.map_filterMap]
    exact congrArg (List.filterMap · _) (funext outcomeAt?_written)
  refine ⟨hUpdates, ?_⟩
  rw [summary_run hv extension targets hDry.isUnwritten_of_dryRun,
    summary_run hv extension targets hWritten, hUpdates, List.length_map, List.flatMap_map]

/-- What a dry run tells is what a run that writes does. -/
theorem dry_run_simulates_write_run (cwd : List String) (noRead noWrite : Path → Option Cause)
    (fs : FileSystem) (o : Options) (extension : String) (targets : List Path) :
    let d := (FileSystem.disk cwd).failing noRead noWrite
    let dry := (run d o .dryRun extension targets).run fs
    let wet := (run d o .write extension targets).run fs
    dry.2 = fs ∧ (∀ u ∈ dry.1.updates, u.written = false) ∧
      (((files d fs extension targets).Pairwise fun p q =>
          ¬ ∃ place, fs.locate cwd p = .ok place ∧ fs.locate cwd q = .ok place) →
        (∀ visit ∈ wet.1.visits, visit.isUnwritten = false) →
        wet.1.updates = dry.1.updates.map (fun u => { u with written := true }) ∧
          dry.1.summary = wet.1.summary ∧
          (∀ u ∈ wet.1.updates, ∃ place t r, fs.locate cwd u.path = .ok place ∧
            fs.content? place = some (.text t) ∧ revise o t = some r ∧
            u = .ofRevision u.path true r ∧ wet.2.content? place = some (.text r.content)) ∧
          (∀ place, (∀ u ∈ wet.1.updates, fs.locate cwd u.path ≠ .ok place) →
            wet.2.content? place = fs.content? place) ∧
          wet.2.root.outline = fs.root.outline) := by
  rw [← FileSystem.disk_volume, ← Volume.disk_failing]
  intro d dry wet
  have hv := (FileSystem.lawful_volume cwd).failing noRead noWrite
  obtain ⟨hDry, -⟩ := visits_run hv o .dryRun extension targets fs
  obtain ⟨hWet, -⟩ := visits_run hv o .write extension targets fs
  refine ⟨hDry.state_of_dryRun, ?_, ?_⟩
  · intro u hu
    rw [Report.updates, hDry.outcomes_of_dryRun, List.mem_filterMap] at hu
    obtain ⟨p, -, hTold⟩ := hu
    obtain ⟨t, r, -, -, rfl⟩ := outcomeAt?_eq_some_iff.mp hTold
    rfl
  intro hPlaces hWritten
  have hApart : (files d fs extension targets).Pairwise fun p q =>
      ¬ ((FileSystem.volume cwd).failing noRead noWrite).SameFile fs p q :=
    hPlaces.imp fun hNone hSame => hNone (FileSystem.sameFile_iff.mp hSame)
  obtain ⟨hUpdates, hSummary⟩ := dryRun_tells hv extension targets hWritten hApart
  obtain ⟨hOutline, hFrame⟩ := hWet.frame
  refine ⟨hUpdates, hSummary, ?_, hFrame, hOutline⟩
  intro u hu
  rw [Report.updates, hWet.outcomes_of_apart hv hWritten hApart, List.mem_filterMap] at hu
  obtain ⟨p, hp, hTold⟩ := hu
  obtain ⟨t, r, hRead, hRevise, rfl⟩ := outcomeAt?_eq_some_iff.mp hTold
  have hLast := hWet.read_of_revise hv hWritten hApart hp hRead hRevise
  obtain ⟨place, hPlace, hOld, hNew⟩ := FileSystem.exists_place_of_read hOutline hRead hLast
  exact ⟨place, t, r, hPlace, hOld, hRevise, rfl, hNew⟩

/-- A file with a revision, and one that holds no text. -/
theorem dry_run_simulates_write_run_of_two_files :
    let source := "class A { java.util.List a; }\n".toList
    let fs : FileSystem := ⟨.directory [("A.java", .file (.text source)),
      ("B.java", .file (.bytes [255]))]⟩
    let d := (FileSystem.disk []).failing (fun _ => none) (fun _ => none)
    let targets : List Path := [⟨"/A.java"⟩, ⟨"/B.java"⟩]
    let dry := (run d .standard .dryRun "java" targets).run fs
    let wet := (run d .standard .write "java" targets).run fs
    (revise .standard source).isSome ∧ dry.2 = fs ∧
      wet.1.updates = dry.1.updates.map (fun u => { u with written := true }) ∧
      dry.1.summary = wet.1.summary ∧ wet.2.root.outline = fs.root.outline := by
  intro source fs d targets dry wet
  have hFiles : files d fs "java" targets = targets := by cbv
  have hFirst : fs.locate [] ⟨"/A.java"⟩ = .ok ["A.java"] := by cbv
  have hSecond : fs.locate [] ⟨"/B.java"⟩ = .ok ["B.java"] := by cbv
  have hApart : (files d fs "java" targets).Pairwise fun p q =>
      ¬ ∃ place, fs.locate [] p = .ok place ∧ fs.locate [] q = .ok place := by
    rw [hFiles, List.pairwise_pair, hFirst, hSecond]
    rintro ⟨place, hPlace, hOther⟩
    exact absurd (hPlace.trans hOther.symm) (by simp)
  have hWritten := isUnwritten_eq_false [] (fun _ => none) fs .standard .write "java" targets
  obtain ⟨hState, -, hSame⟩ := dry_run_simulates_write_run [] (fun _ => none) (fun _ => none) fs
    .standard "java" targets
  obtain ⟨hUpdates, hSummary, -, -, hOutline⟩ := hSame hApart hWritten
  exact ⟨by decide +kernel, hState, hUpdates, hSummary, hOutline⟩

end Batch

end ShortNames
